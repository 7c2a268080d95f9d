import Sandcamp.Campd.IdleRules
import Sandcamp.Campd.Invariant
import Sandcamp.Campd.Steps

/-!
# What the parts of the supervisor can do

A `Hop` leaves the supervisor's state alone: the kernel shifts, or an entry says what happens.
`Tidying` may change the list of cleanups too, and what is `Onward` reaps, delivers probe results
and registers processes. Every step of `drive` is onward, and every part of a run is confined to
one of these.
-/

namespace Sandcamp.Campd
open Foundations

/-! ### Shifts of the kernel -/

/-- No signal has come, or one that campd handles. -/
def Kernel.Signalled (k : Kernel) : Prop :=
  k.receivedSignal = 0 ∨ k.receivedSignal ∈ Kernel.handledSignals

theorem signalled_apply {k : Kernel} (event : KernelEvent) (h : k.Signalled) :
    (k.apply event).Signalled := by
  cases event with
  | signal number =>
    simp only [Kernel.apply]
    split_ifs with hhandled
    · exact Or.inr hhandled
    · exact h
  | newGroup pid =>
    simp only [Kernel.apply]
    split_ifs
    · exact h
    · exact h
  | fork parent pid =>
    simp only [Kernel.apply]
    split
    · exact h
    · split_ifs
      · exact h
      · exact h
  | joinGroup pid member =>
    simp only [Kernel.apply]
    split
    · exact h
    · exact h
  | probe processIndex success =>
    simp only [Kernel.apply]
    split_ifs
    · exact h
    · exact h
  | exit | adopt | collect | tick => exact h

theorem Kernel.Shift.signalled {k k' : Kernel} (h : k.Shift k') (hk : k.Signalled) :
    k'.Signalled := by
  cases h with
  | events events => exact Kernel.keeps_applyAll (fun _ event => signalled_apply event) events hk
  | channel | release | spawn | worker => exact hk

theorem Kernel.Shift.clock {k k' : Kernel} (h : k.Shift k') : k.clock ≤ k'.clock := by
  cases h with
  | events events => exact Kernel.clock_applyAll k events
  | channel | release | spawn | worker => exact Nat.le_refl _

/-! ### Hops, tidying, onward -/

/-- Actions that tell neither of a process nor of the initialization. -/
def Action.incidental : Action → Bool
  | .spawning _ | .exited .. | .probed .. | .started .. | .initializationCompleted | .initializationFailed _
  | .shutdownBegan _ | .terminating .. | .finished .initialization => false
  | _ => true

inductive Hop : Program.Place World Entry → Program.Place World Entry → Prop
  | kernel (w : World) (t : Trace) (kernel : Kernel) (hshift : w.kernel.Shift kernel) :
      Hop (w, t) ({ w with kernel := kernel }, t)
  | told (w : World) (t : Trace) (action : Action) (hincidental : action.incidental = true)
      (hhonest : action.Honest w.kernel) : Hop (w, t) (w, ⟨action, w⟩ :: t)

inductive Tidying : Program.Place World Entry → Program.Place World Entry → Prop
  | hop {a b : Program.Place World Entry} (h : Hop a b) : Tidying a b
  | cleanups (w : World) (t : Trace) (cleanups : List PendingCleanup) :
      Tidying (w, t) (w.withCleanups cleanups, t)

/-- What happens between the beginning of a run and its shutdown, other than the end of the
initialization. -/
inductive Onward (launch : List CommonProcess) :
    Program.Place World Entry → Program.Place World Entry → Prop
  | tidying {a b : Program.Place World Entry} (h : Tidying a b) : Onward launch a b
  | refreshed (w : World) (t : Trace) :
      Onward launch (w, t) ({ w with supervisor := { w.supervisor with
        ready := w.supervisor.readiness } }, t)
  | exited (w : World) (t : Trace) (index status : ℕ) (residual : Bool)
      (process : ManagedProcess) (hprocess : w.supervisor.processes[index]? = some process)
      (halive : process.alive = true) :
      Onward launch (w, t)
        ({ w with supervisor := w.supervisor.markExited index status residual process },
          ⟨.exited index status residual,
            { w with supervisor := w.supervisor.markExited index status residual process }⟩ :: t)
  | probed (w : World) (t : Trace) (index : ℕ) (process : ManagedProcess) (state : ProbeState)
      (success : Bool) (hprocess : w.supervisor.processes[index]? = some process)
      (hprobe : process.probe = some state) :
      Onward launch (w, t)
        ({ w with supervisor := w.supervisor.observed index process state success },
          ⟨.probed index success,
            { w with supervisor := w.supervisor.observed index process state success }⟩ :: t)
  | called (w : World) (t : Trace) (process : LaunchProcess)
      (hnone : w.supervisor.startupFailure = none) :
      Onward launch (w, t) (w, ⟨.spawning process, w⟩ :: t)
  | registered (w : World) (t : Trace) (declaration : CommonProcess) (group : GroupId)
      (hturn : launch[w.supervisor.processes.length]? = some declaration) :
      Onward launch (w, t) (w.withProcess declaration group,
        ⟨.started w.supervisor.processes.length group.number,
          w.withProcess declaration group⟩ :: t)

variable {launch : List CommonProcess} {P : Program.Assertion World Entry}
  {X : Failure RuntimeError → Prop} {α : Type}
  {step : Program.Place World Entry → Program.Place World Entry → Prop}

/-- Name and kind, which no process changes. -/
def Supervisor.labels (sup : Supervisor) : List (Bytes × ProcessKind) :=
  sup.processes.map fun process => (process.name, process.kind)

/-- What `shutdown` itself tells of. -/
def Action.Parts (signal : ℕ) : Action → Prop
  | .shutdownBegan number => number = signal
  | .terminating .. | .terminated _ | .finished .shutdown => True
  | _ => False

/-- What happens in the shutdown that this signal has begun. -/
inductive Parting (signal : ℕ) : Program.Place World Entry → Program.Place World Entry → Prop
  | hop {a b : Program.Place World Entry} (h : Hop a b) : Parting signal a b
  | closed (w : World) (t : Trace) (supervisor : Supervisor)
      (hfailure : supervisor.startupFailure = w.supervisor.startupFailure)
      (hlabels : supervisor.labels = w.supervisor.labels) :
      Parting signal (w, t) ({ w with supervisor := supervisor }, t)
  | told (w : World) (t : Trace) (action : Action) (hparts : action.Parts signal) :
      Parting signal (w, t) (w, ⟨action, w⟩ :: t)

/-! ### The interactions -/

theorem Action.incidental_of_idle {action : Action} (h : action.idle = true) :
    action.incidental = true := by
  cases action <;> first | rfl | cases h

/-- What hops keep, the interactions of campd keep. -/
theorem idle_hops (hstep : ∀ a b, Hop a b → step a b)
    (hP : ∀ w t w' t', Hop (w, t) (w', t') → P w t → P w' t') : IdleIn (.guided step X) P where
  shift := fun w t kernel hshift h =>
    ⟨hstep _ _ (.kernel w t kernel hshift), hP _ _ _ _ (.kernel w t kernel hshift) h⟩
  told := fun w t action hidle hhonest h =>
    have hhop : Hop (w, t) (w, ⟨action, w⟩ :: t) :=
      .told w t action (Action.incidental_of_idle hidle) hhonest
    ⟨hstep _ _ hhop, hP _ _ _ _ hhop h⟩
  stop := fun _ _ _ => trivial

/-- What tidying keeps, `schedule_cleanup` keeps. -/
theorem tidy_scheduleCleanup (hstep : ∀ a b, Tidying a b → step a b)
    (hP : ∀ w t w' t', Tidying (w, t) (w', t') → P w t → P w' t') (group : ℕ) :
    (Program.Logic.guided step X).Holds P (scheduleCleanup group) fun _ => P := by
  have hsteady : SteadyIn (.guided step X) P :=
    (idle_hops (fun _ _ h => hstep _ _ (.hop h)) fun _ _ _ _ h => hP _ _ _ _ (.hop h)).steady
  have htold : ∀ w t action, action.incidental = true → action.Honest w.kernel → P w t →
      Program.Leads step P w t w (⟨action, w⟩ :: t) := fun w t action hincidental hhonest h =>
    have htidying : Tidying (w, t) (w, ⟨action, w⟩ :: t) :=
      .hop (.told w t action hincidental hhonest)
    ⟨hstep _ _ htidying, hP _ _ _ _ htidying h⟩
  exact holds_scheduleCleanup group (A := fun _ => P) hsteady
    (fun w t h => htold w t _ rfl trivial h) (fun _ _ _ _ h => h) hsteady
    (fun w t _ h => htold w t _ rfl trivial h) hsteady
    fun w t h => ⟨hstep _ _ (.cleanups w t _), hP _ _ _ _ (.cleanups w t _) h⟩

/-! ### Shutdown -/

theorem confined_shutdown (signal : ℕ) :
    Program.Confined P (Parting signal) X (shutdown signal) := by
  have hidle : IdleIn (.guided (Parting signal) X) Program.anywhere :=
    idle_hops (fun _ _ => .hop) fun _ _ _ _ _ _ => trivial
  have htold : ∀ w t action, action.Parts signal →
      Program.Leads (Parting signal) Program.anywhere w t w (⟨action, w⟩ :: t) :=
    fun w t action hparts => ⟨.told w t action hparts, trivial⟩
  refine (Program.Logic.toGuided (holds_shutdown signal (U := Program.anywhere)
    (D := Program.anywhere) (C := Program.anywhere) (T := fun _ => Program.anywhere)
    (X := fun _ => Program.anywhere) (fun w t _ => htold w t _ rfl)
    (fun w t _ => ⟨.closed w t _ rfl rfl, trivial⟩) (fun w t _ => ⟨.closed w t _ rfl ?_, trivial⟩)
    hidle.steady (fun groups => ?_) fun _ w t _ => htold w t _ trivial)).toConfined.here
  · simp only [Supervisor.labels, Supervisor.cancelled, List.map_map]
    rfl
  · exact idle_terminateGroups hidle (fun w t group _ =>
      ⟨.hop (.told w t _ rfl trivial), trivial⟩) groups signal
      (fun w t _ => htold w t _ trivial) fun w t _ => htold w t _ trivial

/-! ### `drive` -/

variable {w w' : World} {t t' : Trace}

theorem Step.onward {a b : Phase} (h : Step a w t b w' t') : Onward launch (w, t) (w', t') := by
  have hkernel : ∀ kernel, w.kernel.Shift kernel →
      Onward launch (w, t) ({ w with kernel := kernel }, t) := fun kernel hshift =>
    .tidying (.hop (.kernel w t kernel hshift))
  have htold : ∀ action, action.incidental = true → action.Honest w.kernel →
      Onward launch (w, t) (w, ⟨action, w⟩ :: t) := fun action hincidental hhonest =>
    .tidying (.hop (.told w t action hincidental hhonest))
  cases h with
  | turn _ _ _ events => exact hkernel _ (.events events)
  | receive _ _ event rest => exact hkernel _ (.channel rest)
  | release _ _ pid => exact hkernel _ (.release pid)
  | observed => exact htold _ rfl trivial
  | signalled => exact htold _ rfl trivial
  | abandoned => exact htold _ rfl trivial
  | signalObserved _ _ hsome => exact htold _ rfl ⟨rfl, hsome⟩
  | exited _ _ _ index status process hprocess halive =>
    exact .exited w t index status _ process hprocess halive
  | probed _ _ index process state success hprocess _ hstate =>
    exact .probed w t index process state success hprocess hstate
  | scheduled => exact .tidying (.cleanups w t _)
  | swept _ during before kept => exact .tidying (.cleanups w _ kept)
  | refreshed => exact .refreshed w t

/-- The only error of the supervisor itself. -/
def WaitFailed : Failure RuntimeError → Prop
  | .error e => ∃ error, e.message = lit "wait for processes: " ++ error
  | .panic => False

theorem confined_drive (wait : ℕ) :
    Program.Confined P (Onward launch) WaitFailed (drive wait) := by
  have hkept : KeptIn (.guided (Onward launch) WaitFailed) fun _ => Program.anywhere :=
    { step := fun hstep _ => ⟨hstep.onward, trivial⟩
      follow := fun _ _ => trivial
      stop := fun _ _ _ _ => trivial
      failed := fun error _ _ _ => ⟨error, rfl⟩ }
  exact (Program.Logic.toGuided (holds_drive_kept hkept wait (D := fun _ => Program.anywhere)
    fun _ w t _ _ => ⟨.tidying (.hop (.told w t _ rfl trivial)), trivial⟩)).toConfined.here

end Sandcamp.Campd
