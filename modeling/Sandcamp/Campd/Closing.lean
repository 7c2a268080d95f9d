import Sandcamp.Campd.Rounds
import Sandcamp.Campd.ShutdownRules
import Mathlib.Data.List.Dedup

/-!
# Shutdown

Once `shutdown` has begun nothing is registered, reaped or made ready any more:
what is left to say is which groups `terminate_groups` is called with and what it
has done to each of them when it returns.
-/

namespace Sandcamp.Campd
open Foundations

variable {launch : List CommonProcess} {w : World} {t : Trace}

/-- Every group of a registered process is to be terminated or has vanished. -/
def Accounted (w : World) (numbers : List ℕ) : Prop :=
  ∀ (i : ℕ) (group : GroupId), w.groups[i]? = some group →
    group.number ∈ numbers ∨ w.kernel.Vanished group

theorem covered_of_accounted {numbers : List ℕ} (h : Accounted w numbers) : Covered w numbers := by
  intro i group hg ⟨p, hp, hpg⟩
  rcases h i group hg with hin | hgone
  · exact hin
  · exact absurd hpg (hgone.2 p hp)

/-- The set `shutdown` assembles leaves out only groups that have vanished. -/
theorem accounted_shutdownGroups (h : Inv launch none w t) :
    Accounted w w.supervisor.shutdownGroups := by
  intro i group hg
  have hi : i < w.supervisor.processes.length := by
    rw [← h.grouped]
    exact (List.getElem?_eq_some_iff.mp hg).1
  have hp := List.getElem?_eq_getElem hi
  obtain ⟨hnumber, -, hgone⟩ := h.groups i group _ hg hp
  by_cases hin : (w.supervisor.processes[i].alive || w.supervisor.processes[i].residualGroup) = true
  · refine Or.inl (List.mem_dedup.mpr (List.mem_append_left _ (List.mem_map.mpr ?_)))
    exact ⟨_, List.mem_filter.mpr ⟨List.mem_of_getElem? hp, hin⟩, hnumber.symm⟩
  · simp only [Bool.or_eq_true, not_or, Bool.not_eq_true] at hin
    exact Or.inr (hgone hin.1 hin.2)

/-- After the beginning of shutdown. -/
structure Closed (launch : List CommonProcess) (w : World) (t : Trace) : Prop where
  safe : Safe launch t
  state : StateOk w.supervisor t
  began : ∃ signal, Action.shutdownBegan signal ∈ acts t
  unready : w.supervisor.ready = false

theorem closed_record (action : Action) (h : Closed launch w t) (hn : action.neutral = true)
    (hok : Required launch w t action) (hheeds : Heeds t action) :
    Closed launch w (⟨action, w⟩ :: t) where
  safe := (always_cons _ _ _).mpr ⟨⟨h.state, hok, hheeds⟩, h.safe⟩
  state := stateOk_cons ⟨action, w⟩ h.state rfl (ne_completed_of_neutral hn)
  began := by
    obtain ⟨signal, hm⟩ := h.began
    exact ⟨signal, mem_acts_of_mem [_] hm⟩
  unready := h.unready

/-! ### `terminate_groups` -/

/-- The shutdown has begun for a signal that was observed, and no other one was. -/
def Answered (signal : ℕ) (t : Trace) : Prop := ∃ w₁ w₂ w₃ before,
  t = ⟨.shutdownBegan signal, w₁⟩ :: ⟨.finished .drive, w₂⟩ :: ⟨.signalObserved signal, w₃⟩ ::
    before ∧ Unheard before

/-- `terminate_groups` is running, and `F` holds of what it has done so far. -/
def Terminating (launch : List CommonProcess) (groups : List ℕ) (signal : ℕ)
    (F : List Action → Prop) : Program.Assertion World Entry := fun w t =>
  Closed launch w t ∧ ∃ during before w₁,
    t = during ++ ⟨.terminating groups signal, w₁⟩ :: before ∧ Answered signal before ∧
      Unheard during ∧ F (acts during)

/-- A fact about the past stays true. -/
def Lasting (F : List Action → Prop) : Prop := ∀ actions action, F actions → F (action :: actions)

section Terminate

variable {groups : List ℕ} {signal : ℕ} {F : List Action → Prop}

theorem terminating_kernel (kernel : Kernel) (h : Terminating launch groups signal F w t) :
    Terminating launch groups signal F { w with kernel := kernel } t :=
  ⟨⟨h.1.safe, h.1.state, h.1.began, h.1.unready⟩, h.2⟩

theorem terminating_steady :
    SteadyIn (.triples (Stopped launch)) (Terminating launch groups signal F) where
  turn := fun _ _ _ h => ⟨trivial, terminating_kernel _ h⟩
  stop := fun _ _ h => h.1.safe

/-- What may come next behind the observed signal, is recorded. -/
theorem terminating_record {G : List Action → Prop} (action : Action) (hn : action.neutral = true)
    (h : Terminating launch groups signal F w t) (hok : Required launch w t action)
    (hnext : ∀ actions, F actions → Heeding signal (actions ++ heading groups signal) action)
    (hG : ∀ actions, F actions → G (action :: actions)) :
    Terminating launch groups signal G w (⟨action, w⟩ :: t) := by
  obtain ⟨hclosed, during, before, w₁, rfl, ⟨w₂, w₃, w₄, older, rfl, holder⟩, hduring, hF⟩ := h
  have hheeds : Heeds (during ++ ⟨.terminating groups signal, w₁⟩ :: ⟨.shutdownBegan signal, w₂⟩ ::
      ⟨.finished .drive, w₃⟩ :: ⟨.signalObserved signal, w₄⟩ :: older) action := by
    have hnewer : Unheard (during ++ [⟨.terminating groups signal, w₁⟩,
        ⟨.shutdownBegan signal, w₂⟩, ⟨.finished .drive, w₃⟩]) := by
      intro number hm
      rw [acts, List.map_append] at hm
      rcases List.mem_append.mp hm with hm | hm
      · exact hduring number hm
      · simp at hm
    have hheading : Heeding signal (acts (during ++ [⟨.terminating groups signal, w₁⟩,
        ⟨.shutdownBegan signal, w₂⟩, ⟨.finished .drive, w₃⟩])) action := by
      rw [acts, List.map_append]
      exact hnext _ hF
    have hsplit := heeds_of_split (w := w₄) _ hnewer holder hheading
    rwa [List.append_assoc] at hsplit
  exact ⟨closed_record action hclosed hn hok hheeds, ⟨action, w⟩ :: during, _, w₁, rfl,
    ⟨w₂, w₃, w₄, older, rfl, holder⟩, unheard_cons _ _ hn hduring, hG _ hF⟩

theorem terminating_weaken {G : List Action → Prop} (hG : ∀ actions, F actions → G actions)
    (w : World) (t : Trace) (h : Terminating launch groups signal F w t) :
    Terminating launch groups signal G w t := by
  obtain ⟨hclosed, during, before, w₁, ht, hanswered, hduring, hF⟩ := h
  exact ⟨hclosed, during, before, w₁, ht, hanswered, hduring, hG _ hF⟩

theorem triple_signalEach (number : ℕ) (targets : List ℕ)
    (hnext : ∀ actions, F actions → ∀ group ∈ targets,
      Heeding signal (actions ++ heading groups signal) (.signalled group number))
    (hF : ∀ actions, F actions → ∀ group ∈ targets, F (.signalled group number :: actions)) :
    Program.Triple (Terminating launch groups signal F)
      (Program.each (fun group => signalGroup group number) targets)
      (fun _ => Terminating launch groups signal fun actions =>
        F actions ∧ ∀ group ∈ targets, Action.signalled group number ∈ actions)
      (Stopped launch) := by
  refine Program.triple_pre _ (holds_signalEach (I := fun done =>
    Terminating launch groups signal fun actions =>
      F actions ∧ ∀ group ∈ done, Action.signalled group number ∈ actions) number targets
    (fun _ => terminating_steady) fun done group rest hsplit w t h => ⟨trivial, ?_⟩)
    fun w t h => terminating_weaken (fun _ hf => ⟨hf, by simp⟩) w t h
  have hmem : group ∈ targets := hsplit ▸ List.mem_append_right _ List.mem_cons_self
  refine terminating_record _ rfl h (Or.inl h.1.began)
    (fun actions ⟨hf, _⟩ => hnext actions hf group hmem) fun actions ⟨hf, hall⟩ =>
    ⟨hF actions hf group hmem, fun g hg => ?_⟩
  rcases List.mem_append.mp hg with hg | hg
  · exact List.mem_cons_of_mem _ (hall g hg)
  · rw [List.mem_singleton.mp hg]
    exact List.mem_cons_self

/-- Each of `all` is still waited for or was found empty. -/
def Dispatched (all remaining : List ℕ) (actions : List Action) : Prop :=
  ∀ group ∈ all, group ∈ remaining ∨ Action.groupObserved group false ∈ actions

theorem dispatched_lasting (all remaining : List ℕ) : Lasting (Dispatched all remaining) :=
  fun _ _ h group hg => (h group hg).imp_right (List.mem_cons_of_mem _)

/-- The signal has gone to every group. -/
def Notified (groups : List ℕ) (signal : ℕ) (actions : List Action) : Prop :=
  ∀ group ∈ groups, Action.signalled group signal ∈ actions

theorem notified_lasting (groups : List ℕ) (signal : ℕ) : Lasting (Notified groups signal) :=
  fun _ _ h group hg => List.mem_cons_of_mem _ (h group hg)

/-- `remaining.retain(|group| process_group_exists(*group))`. -/
theorem triple_retainExisting (all remaining : List ℕ) (hF : Lasting F)
    (hnotified : ∀ actions, F actions → Notified groups signal actions) :
    Program.Triple
      (Terminating launch groups signal fun actions => F actions ∧ Dispatched all remaining actions)
      (Program.retain keepExisting remaining)
      (fun kept => Terminating launch groups signal fun actions =>
        F actions ∧ Dispatched all kept actions) (Stopped launch) := by
  refine Program.triple_conseq _ (holds_retainExisting (I := fun done kept =>
    Terminating launch groups signal fun actions =>
      F actions ∧ Dispatched all remaining actions ∧ Dispatched done kept actions) remaining
    (fun _ _ => terminating_steady) fun done kept group rest _ w t h => ⟨trivial, ?_⟩)
    (fun w t h => terminating_weaken (fun _ ⟨hf, hd⟩ => ⟨hf, hd, by simp [Dispatched]⟩) w t h)
    fun kept w t h => terminating_weaken (fun actions ⟨hf, hd, hk⟩ => ⟨hf, fun g hg => ?_⟩) w t h
  · refine terminating_record _ rfl h trivial (fun actions ⟨hf, _⟩ =>
      .closing groups _ actions (hnotified actions hf) rfl) fun actions ⟨hf, hd, hk⟩ =>
      ⟨hF _ _ hf, dispatched_lasting _ _ _ _ hd, fun g hg => ?_⟩
    rcases List.mem_append.mp hg with hg | hg
    · exact (hk g hg).imp (List.mem_append_left _) (List.mem_cons_of_mem _)
    · rw [List.mem_singleton.mp hg]
      cases hex : w.kernel.groupExists group with
      | false => exact Or.inr List.mem_cons_self
      | true => exact Or.inl (List.mem_append_right _ (by simp))
  · rcases hd g hg with hr | ho
    · exact hk g hr
    · exact Or.inr ho

theorem triple_awaitGroups (deadline : ℕ) (all remaining : List ℕ) (hF : Lasting F)
    (hnotified : ∀ actions, F actions → Notified groups signal actions) :
    Program.Triple
      (Terminating launch groups signal fun actions => F actions ∧ Dispatched all remaining actions)
      (awaitGroups deadline remaining)
      (fun left => Terminating launch groups signal fun actions =>
        F actions ∧ Dispatched all left actions) (Stopped launch) :=
  holds_awaitGroups (I := fun remaining => Terminating launch groups signal fun actions =>
      F actions ∧ Dispatched all remaining actions) deadline remaining
    (fun _ => terminating_steady) (fun _ _ h => h) (fun _ _ _ _ h => h)
    (fun _ _ _ _ h => ⟨trivial, terminating_kernel _ h⟩)
    fun remaining => triple_retainExisting all remaining hF hnotified

/-- Every group got the signal and was found empty or killed. -/
def Handled (groups : List ℕ) (signal : ℕ) (actions : List Action) : Prop :=
  ∀ group ∈ groups, Action.signalled group signal ∈ actions ∧
    (Action.groupObserved group false ∈ actions ∨ Action.signalled group sigkill ∈ actions)

theorem handled_lasting (groups : List ℕ) (signal : ℕ) : Lasting (Handled groups signal) :=
  fun _ _ h group hg => ⟨List.mem_cons_of_mem _ (h group hg).1,
    (h group hg).2.imp (List.mem_cons_of_mem _) (List.mem_cons_of_mem _)⟩

/-- Nothing but the signal has been sent. -/
def Forwarding (groups : List ℕ) (signal : ℕ) (actions : List Action) : Prop :=
  ∀ action ∈ actions, ∃ group ∈ groups, action = .signalled group signal

theorem terminating_called (h : Closed launch w t) (hok : TerminatingOk w t groups signal)
    (hanswered : Answered signal t) : Terminating launch groups signal (Forwarding groups signal) w
      (⟨.terminating groups signal, w⟩ :: t) := by
  have hheeds : Heeds t (.terminating groups signal) := by
    obtain ⟨w₁, w₂, w₃, before, rfl, hbefore⟩ := hanswered
    exact heeds_of_split [⟨.shutdownBegan signal, w₁⟩, ⟨.finished .drive, w₂⟩]
      (by simp [Unheard, acts]) hbefore (.terminating groups)
  exact ⟨closed_record _ h rfl hok hheeds, [], t, w, rfl, hanswered, fun _ => List.not_mem_nil,
    fun _ hm => (List.not_mem_nil hm).elim⟩

theorem triple_terminateGroups (groups : List ℕ) (signal : ℕ) :
    Program.Triple (fun w t => Closed launch w t ∧ TerminatingOk w t groups signal ∧
        Answered signal t)
      (terminateGroups groups signal)
      (fun _ => Terminating launch groups signal fun actions => Notified groups signal actions ∧
        Action.terminated groups ∈ actions)
      (Stopped launch) := by
  have hnotified : ∀ actions, Handled groups signal actions → Notified groups signal actions :=
    fun actions h group hg => (h group hg).1
  refine Program.Logic.triple (holds_terminateGroups groups signal
    (D := Terminating launch groups signal (Forwarding groups signal))
    (A := Terminating launch groups signal fun actions =>
      Forwarding groups signal actions ∧ Notified groups signal actions)
    -- Every group got the signal; from now on it is waited for until it is found empty.
    (B := fun remaining => Terminating launch groups signal fun actions =>
      Notified groups signal actions ∧ Dispatched groups remaining actions)
    (C := fun remaining => Terminating launch groups signal fun actions =>
      (Notified groups signal actions ∧ Dispatched groups remaining actions) ∧
        ∀ group ∈ remaining, Action.signalled group sigkill ∈ actions)
    (R := Terminating launch groups signal (Handled groups signal))
    (fun w t h => ⟨trivial, terminating_called h.1 h.2.1 h.2.2⟩) ?_
    terminating_steady (fun now₁ => ?_) (fun remaining => ?_) (fun _ => terminating_steady)
    (fun remaining deadline => ?_) fun w t h => ⟨trivial, ?_⟩)
  · refine triple_signalEach signal groups
      (fun actions hf group hg => .forwarded groups group actions hg hf)
      fun actions hf group hg action hm => ?_
    rcases List.mem_cons.mp hm with rfl | hm
    · exact ⟨group, hg, rfl⟩
    · exact hf action hm
  · refine Program.Logic.pre _ (triple_awaitGroups _ groups groups
      (notified_lasting groups signal) fun _ h => h).holds fun w t h => ?_
    exact terminating_weaken (fun _ hf => ⟨hf.2, fun _ hg => Or.inl hg⟩) w t h.2
  · exact triple_signalEach sigkill remaining
      (fun actions h group _ => .closing groups _ actions h.1 (by simp [Action.closing]))
      fun actions h group _ => ⟨notified_lasting groups signal actions _ h.1,
        dispatched_lasting _ _ actions _ h.2⟩
  · have hall : ∀ actions, ((Notified groups signal actions ∧
        Dispatched groups remaining actions) ∧
        ∀ group ∈ remaining, Action.signalled group sigkill ∈ actions) →
          Handled groups signal actions ∧ Dispatched [] remaining actions := by
      rintro actions ⟨⟨hs, hd⟩, hk⟩
      refine ⟨fun group hg => ⟨hs group hg, ?_⟩, by simp [Dispatched]⟩
      rcases hd group hg with hr | ho
      · exact Or.inr (hk group hr)
      · exact Or.inl ho
    exact Program.triple_conseq _ (triple_awaitGroups deadline [] remaining
      (handled_lasting groups signal) hnotified) (terminating_weaken hall)
      fun _ => terminating_weaken fun _ h => h.1
  · have hfinal : TerminatedOk t groups := by
      obtain ⟨-, during, before, w₁, ht, -, -, hhandled⟩ := h
      exact ⟨signal, during, before, w₁, ht, hhandled⟩
    exact terminating_record _ rfl h hfinal
      (fun actions hf => .closing groups _ actions (hnotified actions hf) rfl)
      fun actions hf => ⟨notified_lasting groups signal actions _ (hnotified actions hf),
        List.mem_cons_self⟩

end Terminate

/-! ### `shutdown` -/

/-- Between the beginning of shutdown and the call of `terminate_groups`. -/
structure Leaving (launch : List CommonProcess) (signal : ℕ) (w : World) (t : Trace) : Prop where
  closed : Closed launch w t
  answered : Answered signal t
  accounted : Accounted w w.supervisor.shutdownGroups
  observed : ∀ entry ∈ t, ∀ number, entry.action = .signalObserved number →
    Covered entry.world w.supervisor.shutdownGroups

theorem leaving_stable (signal : ℕ) : Stable (Leaving launch signal) :=
  fun _ _ _ h hmoves =>
    { closed := ⟨h.closed.safe, h.closed.state, h.closed.began, h.closed.unready⟩
      answered := h.answered
      accounted := fun i group hg => (h.accounted i group hg).imp_right (hmoves.vanished group)
      observed := h.observed }

/-- What the first statements of `shutdown` make of the supervisor. -/
def Supervisor.closing (sup : Supervisor) : Supervisor :=
  { sup with ready := false }.cancelled

theorem shutdownGroups_closing (sup : Supervisor) :
    sup.closing.shutdownGroups = sup.shutdownGroups := by
  simp only [Supervisor.shutdownGroups, Supervisor.closing, Supervisor.cancelled,
    List.filter_map, List.map_map]
  rfl

theorem mem_of_answered {signal : ℕ} (h : Answered signal t) :
    Action.signalObserved signal ∈ acts t := by
  obtain ⟨w₁, w₂, w₃, before, rfl, -⟩ := h
  exact List.mem_cons_of_mem _ (List.mem_cons_of_mem _ List.mem_cons_self)

theorem leaving_of_observed (signal : ℕ) (h : Observed launch signal w t) :
    Leaving launch signal { w with supervisor := w.supervisor.closing }
      (⟨.shutdownBegan signal, w⟩ :: t) := by
  have honly := only_of_observed h
  obtain ⟨hsafe, before, hinv, rfl⟩ := h
  have hacc := accounted_shutdownGroups hinv
  have hstate : StateOk w.supervisor
      (⟨.shutdownBegan signal, w⟩ :: ⟨.finished .drive, w⟩ :: ⟨.signalObserved signal, w⟩ ::
        before) :=
    stateOk_cons _ (stateOk_cons _ (stateOk_cons _ hinv.state rfl (by simp)) rfl (by simp)) rfl
      (by simp)
  have hbegan : EntryOk launch ⟨.shutdownBegan signal, w⟩
      (⟨.finished .drive, w⟩ :: ⟨.signalObserved signal, w⟩ :: before) :=
    ⟨stateOk_cons _ (stateOk_cons _ hinv.state rfl (by simp)) rfl (by simp), trivial,
      heeds_of_split [⟨.finished .drive, w⟩] (by simp [Unheard, acts]) hinv.unheard
        .began⟩
  refine
    { closed :=
        { safe := (always_cons _ _ _).mpr ⟨hbegan, hsafe⟩
          state := { hstate with flag := fun hr => by cases hr }
          began := ⟨signal, (mem_acts_cons _ _ _).mpr (Or.inl rfl)⟩
          unready := rfl }
      answered := ⟨w, w, w, before, rfl, hinv.unheard⟩
      accounted := ?_
      observed := fun entry he number hs => ?_ }
  · rw [shutdownGroups_closing]
    exact hacc
  · rw [shutdownGroups_closing]
    rcases List.mem_cons.mp he with rfl | he
    · cases hs
    · rw [honly entry he number hs]
      exact covered_of_accounted hacc

/-- What a run that returns an exit code has come to: it was observed what the code tells, and
`terminate_groups` has returned. -/
def Ended (launch : List CommonProcess) (code : ℕ) : Program.Assertion World Entry := fun _ t =>
  Safe launch t ∧ ∃ signal groups, code = 128 + signal ∧ Action.signalObserved signal ∈ acts t ∧
    Action.shutdownBegan signal ∈ acts t ∧ Action.terminated groups ∈ acts t

theorem ended_of_terminating {groups : List ℕ} {signal : ℕ}
    (h : Terminating launch groups signal (fun actions => Notified groups signal actions ∧
      Action.terminated groups ∈ actions) w t) :
    Ended launch (128 + signal) w (⟨.finished .shutdown, w⟩ :: t) := by
  obtain ⟨number, hbegan⟩ := h.1.began
  have hok : Required launch w t (.finished .shutdown) := by
    rw [Required, h.1.unready]
    exact iff_of_false (by simp) fun hready => hready.2.1 number hbegan
  have hlast := terminating_record (G := fun actions => Action.terminated groups ∈ actions)
    (.finished .shutdown) rfl h hok (fun actions hf => .closing groups _ actions hf.1 rfl)
    fun actions hf => List.mem_cons_of_mem _ hf.2
  obtain ⟨hclosed, during, before, w₁, ht, hanswered, -, hterminated⟩ := hlast
  refine ⟨hclosed.safe, signal, groups, rfl, ?_⟩
  rw [ht]
  refine ⟨mem_acts_of_mem during (List.mem_cons_of_mem _ (mem_of_answered hanswered)), ?_, ?_⟩
  · obtain ⟨w₂, w₃, w₄, older, rfl, -⟩ := hanswered
    exact mem_acts_of_mem during (List.mem_cons_of_mem _ List.mem_cons_self)
  · rw [acts, List.map_append]
    exact List.mem_append_left _ hterminated

theorem triple_shutdown (signal : ℕ) :
    Program.Triple (Observed launch signal) (shutdown signal) (Ended launch) (Stopped launch) := by
  refine Program.Logic.triple (holds_shutdown signal
    (U := fun w t => ∃ before, t = ⟨.shutdownBegan signal, w⟩ :: before ∧
      Observed launch signal w before)
    (D := fun w t => ∃ old before, t = ⟨.shutdownBegan signal, old⟩ :: before ∧
      Observed launch signal old before ∧
        w = { old with supervisor := { old.supervisor with ready := false } })
    (C := Leaving launch signal)
    (T := fun groups => Terminating launch groups signal fun actions =>
      Notified groups signal actions ∧ Action.terminated groups ∈ actions)
    (fun w t h => ⟨trivial, t, rfl, h⟩)
    (fun w t ⟨before, ht, h⟩ => ⟨trivial, w, before, ht, h, rfl⟩) ?_
    ((leaving_stable signal).inTriples fun w t h => h.closed.safe) (fun groups => ?_)
    fun groups w t h => ⟨trivial, ended_of_terminating h⟩)
  · rintro w t ⟨old, before, rfl, h, rfl⟩
    exact ⟨trivial, leaving_of_observed signal h⟩
  · refine Program.Logic.pre _ (triple_terminateGroups groups signal).holds ?_
    rintro w t ⟨rfl, h⟩
    exact ⟨h.closed, ⟨mem_of_answered h.answered, covered_of_accounted h.accounted, h.observed⟩,
      h.answered⟩

end Sandcamp.Campd
