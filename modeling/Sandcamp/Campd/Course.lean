import Sandcamp.Campd.Gates
import Sandcamp.Campd.Moves
import Sandcamp.Campd.Runs

/-!
# The course of a run

`Fault` lists what makes an initialization fail besides the exit of a service, each with the text
that is reported. A run is confined to `Move`s: onward stretches, the failure or the completion of
the initialization, and at last the shutdown as a whole.
-/

namespace Sandcamp.Campd
open Foundations

variable {launch : List CommonProcess} {P : Program.Assertion World Entry}
  {X : Failure RuntimeError → Prop} {α : Type} {w w' : World} {t t' : Trace} {k : ℕ}
  {process : LaunchProcess}

/-! ### Why an initialization fails -/

/-- Process `index` was started at least `timeout` nanoseconds before `clock`. -/
def Outlasted (index timeout clock : ℕ) (t : Trace) : Prop :=
  ∃ entry ∈ t, (∃ pid, entry.action = .started index pid) ∧
    entry.world.kernel.clock + timeout ≤ clock

/-- What the launch of the last declaration whose turn has come may fail of. -/
inductive Fault (launch : List CommonProcess) (w : World) (t : Trace) : Bytes → Prop
  /-- `spawn` was called for it, and it is not registered. -/
  | unstarted (declaration : CommonProcess) (error : Bytes)
      (hturn : launch[w.supervisor.processes.length]? = some declaration)
      (hcalled : launched t = w.supervisor.processes.length + 1) :
      Fault launch w t (lit "failed to start " ++ declaration.name ++ lit ": " ++ error)
  | unready (index : ℕ) (declaration : CommonProcess) (probe : Probe)
      (hlast : w.supervisor.processes.length = index + 1)
      (hdeclared : launch[index]? = some declaration) (hkind : declaration.kind = .service)
      (hprobe : declaration.readinessProbe = some probe) (hunready : ¬SeenReady w.supervisor index)
      (hlate : Outlasted index (probe.startupTimeoutMs.toNat * millisecond) w.kernel.clock t) :
      Fault launch w t (lit "readiness probe timed out for " ++ declaration.name ++
        lit " after " ++ decimal probe.startupTimeoutMs.toNat ++ lit "ms")
  | failed (index : ℕ) (declaration : CommonProcess) (status : ℕ) (residual : Bool)
      (hlast : w.supervisor.processes.length = index + 1)
      (hdeclared : launch[index]? = some declaration)
      (hkind : declaration.kind = .runToCompletion)
      (hexited : Action.exited index status residual ∈ acts t) (hcode : exitCode status ≠ 0) :
      Fault launch w t (lit "run-to-completion process " ++ declaration.name ++
        lit " failed with " ++ displayStatus status)
  | descendants (index : ℕ) (declaration : CommonProcess) (status : ℕ)
      (hlast : w.supervisor.processes.length = index + 1)
      (hdeclared : launch[index]? = some declaration)
      (hkind : declaration.kind = .runToCompletion)
      (hexited : Action.exited index status true ∈ acts t) (hcode : exitCode status = 0) :
      Fault launch w t (lit "run-to-completion process " ++ declaration.name ++
        lit " left descendants in its process group")
  | late (index : ℕ) (declaration : CommonProcess) (timeout : UInt64)
      (hlast : w.supervisor.processes.length = index + 1)
      (hdeclared : launch[index]? = some declaration)
      (hkind : declaration.kind = .runToCompletion)
      (htimeout : declaration.completionTimeoutMs = some timeout)
      (hunreaped : ¬HasExited index t)
      (hlate : Outlasted index (timeout.toNat * millisecond) w.kernel.clock t) :
      Fault launch w t (lit "run-to-completion process " ++ declaration.name ++
        lit " timed out after " ++ decimal timeout.toNat ++ lit "ms")

/-- The reason given for giving up is the failure on record, or there is none on record and it
is a fault. -/
def Excused (launch : List CommonProcess) (reason : Bytes) : Program.Assertion World Entry :=
  fun w t => w.supervisor.startupFailure = some reason ∨
    w.supervisor.startupFailure = none ∧ Fault launch w t reason

theorem Outlasted.mono {index timeout clock later : ℕ} (new : Trace) (hclock : clock ≤ later)
    (h : Outlasted index timeout clock t) : Outlasted index timeout later (new ++ t) := by
  obtain ⟨entry, hm, hstarted, hlate⟩ := h
  exact ⟨entry, List.mem_append_right new hm, hstarted, hlate.trans hclock⟩

theorem hasExited_told {index : ℕ} {action : Action} (hincidental : action.incidental = true) :
    HasExited index (⟨action, w⟩ :: t) ↔ HasExited index t := by
  constructor
  · rintro ⟨status, residual, hm⟩
    refine ⟨status, residual, mem_acts_of_ne ?_ hm⟩
    rintro rfl
    cases hincidental
  · rintro ⟨status, residual, hm⟩
    exact ⟨status, residual, mem_acts_of_mem [_] hm⟩

theorem launched_told {action : Action} (hincidental : action.incidental = true) :
    launched (⟨action, w⟩ :: t) = launched t := by
  apply launched_cons_of_ne
  rintro process rfl
  cases hincidental

theorem fault_told {reason : Bytes} {action : Action} (hincidental : action.incidental = true)
    (h : Fault launch w t reason) : Fault launch w (⟨action, w⟩ :: t) reason := by
  cases h with
  | unstarted declaration error hturn hcalled =>
    exact .unstarted declaration error hturn ((launched_told hincidental).trans hcalled)
  | unready index declaration probe hlast hdeclared hkind hprobe hunready hlate =>
    exact .unready index declaration probe hlast hdeclared hkind hprobe hunready
      (hlate.mono [_] (Nat.le_refl _))
  | failed index declaration status residual hlast hdeclared hkind hexited hcode =>
    exact .failed index declaration status residual hlast hdeclared hkind
      (mem_acts_of_mem [_] hexited) hcode
  | descendants index declaration status hlast hdeclared hkind hexited hcode =>
    exact .descendants index declaration status hlast hdeclared hkind
      (mem_acts_of_mem [_] hexited) hcode
  | late index declaration timeout hlast hdeclared hkind htimeout hunreaped hlate =>
    refine .late index declaration timeout hlast hdeclared hkind htimeout ?_
      (hlate.mono [_] (Nat.le_refl _))
    rwa [hasExited_told hincidental]

/-- A fault is about the processes, the clock and the past. -/
theorem fault_world {reason : Bytes} (h : Fault launch w t reason)
    (hprocesses : w'.supervisor.processes = w.supervisor.processes)
    (hclock : w.kernel.clock ≤ w'.kernel.clock) : Fault launch w' t reason := by
  cases h with
  | unstarted declaration error hturn hcalled =>
    exact .unstarted declaration error (by rw [hprocesses, hturn]) (by rw [hprocesses, hcalled])
  | unready index declaration probe hlast hdeclared hkind hprobe hunready hlate =>
    refine .unready index declaration probe (by rw [hprocesses, hlast]) hdeclared hkind hprobe ?_
      (hlate.mono [] hclock)
    rwa [SeenReady, hprocesses]
  | failed index declaration status residual hlast hdeclared hkind hexited hcode =>
    exact .failed index declaration status residual (by rw [hprocesses, hlast]) hdeclared hkind
      hexited hcode
  | descendants index declaration status hlast hdeclared hkind hexited hcode =>
    exact .descendants index declaration status (by rw [hprocesses, hlast]) hdeclared hkind
      hexited hcode
  | late index declaration timeout hlast hdeclared hkind htimeout hunreaped hlate =>
    exact .late index declaration timeout (by rw [hprocesses, hlast]) hdeclared hkind htimeout
      hunreaped (hlate.mono [] hclock)

theorem excused_tidying {reason : Bytes} (htidying : Tidying (w, t) (w', t'))
    (h : Excused launch reason w t) : Excused launch reason w' t' := by
  cases htidying with
  | hop hhop =>
    cases hhop with
    | kernel w t kernel hshift =>
      refine h.imp_right fun ⟨hnone, hfault⟩ => ⟨hnone, ?_⟩
      exact fault_world hfault rfl hshift.clock
    | told w t action hincidental hhonest =>
      exact h.imp_right fun h => ⟨h.1, fault_told hincidental h.2⟩
  | cleanups w t cleanups =>
    refine h.imp_right fun ⟨hnone, hfault⟩ => ⟨hnone, ?_⟩
    exact fault_world hfault rfl (Nat.le_refl _)

/-! ### Moves -/

def Running (t : Trace) : Prop := ∀ signal, Action.shutdownBegan signal ∉ acts t

/-- Nothing was said about the end of the initialization. -/
def Undecided (t : Trace) : Prop :=
  Action.initializationCompleted ∉ acts t ∧ ∀ reason, Action.initializationFailed reason ∉ acts t

inductive Move (launch : List CommonProcess) :
    Program.Place World Entry → Program.Place World Entry → Prop
  | onward {a b : Program.Place World Entry} (h : Onward launch a b) (hrunning : Running a.2) :
      Move launch a b
  | failed (w : World) (t : Trace) (reason : Bytes) (hexcused : Excused launch reason w t)
      (hundecided : Undecided t) (hrunning : Running t) :
      Move launch (w, t)
        (w.withFailure reason, ⟨.initializationFailed reason, w.withFailure reason⟩ :: t)
  | uncompleted (w : World) (t : Trace) (hearly : w.supervisor.initializationComplete = false)
      (hrunning : Running t) :
      Move launch (w, t) ({ w with supervisor := { w.supervisor with
        initializationComplete := false } }, t)
  | completed (w : World) (t : Trace) (hnone : w.supervisor.startupFailure = none)
      (hundecided : Undecided t) (hrunning : Running t) :
      Move launch (w, t) (w.withCompletion, ⟨.initializationCompleted, w.withCompletion⟩ :: t)
  | concluded (w : World) (t : Trace)
      (hcompleted : w.supervisor.startupFailure = none → Action.initializationCompleted ∈ acts t)
      (hrunning : Running t) : Move launch (w, t) (w, ⟨.finished .initialization, w⟩ :: t)
  | shutdown (w : World) (t : Trace) (signal : ℕ) (schedule : List Turn)
      (hobserved : Action.signalObserved signal ∈ acts t) (hrunning : Running t) :
      Move launch (w, t) (Program.Run.place (shutdown signal ⟨w, schedule, t⟩).2)

theorem running_onward (h : Onward launch (w, t) (w', t')) (hrunning : Running t) : Running t' := by
  have hcons : ∀ (entry : Entry), (∀ signal, entry.action ≠ .shutdownBegan signal) →
      Running (entry :: t) := fun entry hne signal hm =>
    hrunning signal (mem_acts_of_ne (fun he => hne signal he.symm) hm)
  cases h with
  | tidying h =>
    cases h with
    | hop h =>
      cases h with
      | kernel => exact hrunning
      | told w t action hincidental =>
        refine hcons _ fun signal he => ?_
        simp only at he
        rw [he] at hincidental
        cases hincidental
    | cleanups => exact hrunning
  | refreshed => exact hrunning
  | exited => exact hcons _ fun signal he => by cases he
  | probed => exact hcons _ fun signal he => by cases he
  | called => exact hcons _ fun signal he => by cases he
  | registered => exact hcons _ fun signal he => by cases he

/-- Onward stretches of a run that has not come to its shutdown are moves. -/
theorem move_of_onward {p : Act α} (h : Program.Confined P (Onward launch) X p)
    (hrunning : ∀ w t, P w t → Running t) : Program.Confined P (Move launch) X p := by
  refine ⟨fun r hr => ?_, h.raises⟩
  have hpath : ∀ place, Relation.ReflTransGen (Onward launch) (Program.Run.place r) place →
      Relation.ReflTransGen (Move launch) (Program.Run.place r) place ∧ Running place.2 := by
    intro place hplace
    induction hplace with
    | refl => exact ⟨.refl, hrunning _ _ hr⟩
    | tail _ hlast ih => exact ⟨ih.1.tail (.onward hlast ih.2), running_onward hlast ih.2⟩
  exact (hpath _ (h.passes r hr)).1

end Sandcamp.Campd
