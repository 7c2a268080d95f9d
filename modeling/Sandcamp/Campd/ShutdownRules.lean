import Sandcamp.Campd.RoundRules

/-!
# The rules of the shutdown

One rule for each function that `shutdown` is made of, in any logic.
-/

namespace Sandcamp.Campd
open Foundations

variable {L : Program.Logic World Turn Entry (Failure RuntimeError)}
  {P Q R : Program.Assertion World Entry}

/-- `I done` holds once the groups of `done` have got the signal. -/
theorem holds_signalEach {I : List ℕ → Program.Assertion World Entry} (signal : ℕ)
    (groups : List ℕ) (hI : ∀ done, SteadyIn L (I done))
    (hsignalled : ∀ done group rest, groups = done ++ group :: rest → ∀ w t, I done w t →
      Program.Leads L.step (I (done ++ [group])) w t w (⟨.signalled group signal, w⟩ :: t)) :
    L.Holds (I []) (Program.each (fun group => signalGroup group signal) groups)
      fun _ => I groups :=
  L.each _ groups fun done group rest hsplit =>
    holds_signalGroup group signal (hI done) (hsignalled done group rest hsplit)

/-- `I done kept` holds once the groups of `done` were asked for, and `kept` is left of them. -/
theorem holds_retainExisting {I : List ℕ → List ℕ → Program.Assertion World Entry}
    (groups : List ℕ) (hI : ∀ done kept, SteadyIn L (I done kept))
    (hasked : ∀ done kept group rest, groups = done ++ group :: rest → ∀ w t, I done kept w t →
      Program.Leads L.step (I (done ++ [group])
        (kept ++ (if w.kernel.groupExists group then some group else none).toList)) w t w
        (⟨.groupObserved group (w.kernel.groupExists group), w⟩ :: t)) :
    L.Holds (I [] []) (Program.retain keepExisting groups) fun kept => I groups kept :=
  L.retain _ groups fun done kept group rest hsplit =>
    L.bind (holds_processGroupExists group (hI done kept) (Q := fun alive =>
      I (done ++ [group]) (kept ++ (if alive then some group else none).toList))
      (hasked done kept group rest hsplit)) fun _ => L.pure _ fun _ _ h => h

theorem holds_reapAnyAvailable (hP : SteadyIn L P)
    (hwait : ∀ w t answer, P w t →
      Program.Leads L.step P w t { w with kernel := (w.kernel.waitAny answer).2 } t) :
    L.Holds P reapAnyAvailable fun _ => P := by
  refine L.loop (I := fun _ => P) _ () (fun _ => ?_) fun _ => hP.stop
  refine L.bind (holds_waitAny hP (Q := fun _ => P) hwait) fun result => ?_
  cases result with
  | reaped => exact L.pure _ fun _ _ h => h
  | running => exact L.pure _ fun _ _ h => h
  | interrupted => exact L.pure _ fun _ _ h => h
  | noChildren => exact L.pure _ fun _ _ h => h
  | failed => exact L.pure _ fun _ _ h => h

theorem holds_sleepUnlessDone (remaining : List ℕ) (hP : SteadyIn L P) :
    L.Holds P (sleepUnlessDone remaining) fun _ => P := by
  unfold sleepUnlessDone
  split
  · exact holds_sleep hP
  · exact L.pure _ fun _ _ h => h

/-- `I remaining` holds while `remaining` is waited for, `A` of what is left at the end. -/
theorem holds_awaitGroups {I A : List ℕ → Program.Assertion World Entry} (deadline : ℕ)
    (groups : List ℕ) (hI : ∀ remaining, SteadyIn L (I remaining))
    (hdone : ∀ w t, I [] w t → A [] w t)
    (hover : ∀ remaining w t, deadline ≤ w.kernel.clock → I remaining w t → A remaining w t)
    (hwait : ∀ remaining w t answer, I remaining w t → Program.Leads L.step (I remaining) w t
      { w with kernel := (w.kernel.waitAny answer).2 } t)
    (hretain : ∀ remaining, L.Holds (I remaining) (Program.retain keepExisting remaining) I) :
    L.Holds (I groups) (awaitGroups deadline groups) A := by
  refine L.loop (I := I) _ groups (fun remaining => ?_) fun remaining => (hI remaining).stop
  by_cases hempty : remaining = []
  · simp only [if_pos hempty]
    exact L.pure _ fun w t h => by
      rw [hempty] at h ⊢
      exact hdone w t h
  simp only [if_neg hempty]
  refine L.bind (holds_now (hI remaining)) fun now => ?_
  by_cases hlate : deadline ≤ now
  · simp only [if_pos hlate]
    refine L.pure _ ?_
    rintro w t ⟨rfl, h⟩
    exact hover remaining w t hlate h
  simp only [if_neg hlate]
  refine L.bind (L.pre (holds_reapAnyAvailable (hI remaining) (hwait remaining))
    fun w t h => h.2) fun _ => ?_
  refine L.bind (hretain remaining) fun kept => ?_
  exact L.bind (holds_sleepUnlessDone kept (hI kept)) fun _ => L.pure _ fun _ _ h => h

/-- `D` holds once the call is on record, `A` once the signal went to every group, `B` of what is
left of them, `C` once that was killed, and `R` once it was waited for. -/
theorem holds_terminateGroups {D A : Program.Assertion World Entry}
    {B C : List ℕ → Program.Assertion World Entry} (groups : List ℕ) (signal : ℕ)
    (hcalled : ∀ w t, P w t → Program.Leads L.step D w t w (⟨.terminating groups signal, w⟩ :: t))
    (hforward : L.Holds D (Program.each (fun group => signalGroup group signal) groups)
      fun _ => A) (hA : SteadyIn L A)
    (hawait : ∀ now₁, L.Holds (fun w t => now₁ = w.kernel.clock ∧ A w t)
      (awaitGroups (now₁ + shutdownGrace) groups) B)
    (hkill : ∀ remaining, L.Holds (B remaining)
      (Program.each (fun group => signalGroup group sigkill) remaining) fun _ => C remaining)
    (hC : ∀ remaining, SteadyIn L (C remaining))
    (hlast : ∀ remaining deadline, L.Holds (C remaining) (awaitGroups deadline remaining)
      fun _ => R)
    (hterminated : ∀ w t, R w t → Program.Leads L.step Q w t w (⟨.terminated groups, w⟩ :: t)) :
    L.Holds P (terminateGroups groups signal) fun _ => Q := by
  refine L.bind (L.record (R := D) _ hcalled) fun _ => ?_
  refine L.bind hforward fun _ => ?_
  refine L.bind (holds_now hA) fun now₁ => ?_
  refine L.bind (hawait now₁) fun remaining => ?_
  refine L.bind (hkill remaining) fun _ => ?_
  refine L.bind (holds_now (hC remaining)) fun now₂ => ?_
  exact L.bind (L.pre (hlast remaining _) fun w t h => h.2) fun _ => L.record _ hterminated

/-- What the second statement of `shutdown` makes of the supervisor. -/
def Supervisor.cancelled (sup : Supervisor) : Supervisor :=
  { sup with processes := sup.processes.map fun process =>
      { process with probeCancel := process.probeCancel.map fun _ => true } }

/-- `U` holds once the beginning is on record, `D` once the flag is down, `C` once the probes were
told to end, `T` once `terminate_groups` has returned. -/
theorem holds_shutdown {U D C : Program.Assertion World Entry}
    {T : List ℕ → Program.Assertion World Entry} {X : ℕ → Program.Assertion World Entry}
    (signal : ℕ)
    (hbegan : ∀ w t, P w t → Program.Leads L.step U w t w (⟨.shutdownBegan signal, w⟩ :: t))
    (hunready : ∀ w t, U w t → Program.Leads L.step D w t
      { w with supervisor := { w.supervisor with ready := false } } t)
    (hcancelled : ∀ w t, D w t → Program.Leads L.step C w t
      { w with supervisor := w.supervisor.cancelled } t) (hC : SteadyIn L C)
    (hterminate : ∀ groups, L.Holds (fun w t => groups = w.supervisor.shutdownGroups ∧ C w t)
      (terminateGroups groups signal) fun _ => T groups)
    (hfinished : ∀ groups w t, T groups w t →
      Program.Leads L.step (X (128 + signal)) w t w (⟨.finished .shutdown, w⟩ :: t)) :
    L.Holds P (shutdown signal) X := by
  refine L.bind (L.record (R := U) _ hbegan) fun _ => ?_
  refine L.bind (holds_modifySupervisor _ hunready) fun _ => ?_
  refine L.bind (holds_modifySupervisor _ hcancelled) fun _ => ?_
  refine L.bind (holds_turn hC) fun _ => ?_
  refine L.bind holds_supervisor fun sup => ?_
  refine L.bind (L.pre (hterminate sup.shutdownGroups) ?_) fun _ => ?_
  · rintro w t ⟨rfl, h⟩
    exact ⟨rfl, h.2⟩
  exact L.bind (L.record (R := X (128 + signal)) _ (hfinished sup.shutdownGroups)) fun _ =>
    L.pure _ fun _ _ h => h

end Sandcamp.Campd
