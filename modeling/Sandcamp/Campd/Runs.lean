import Sandcamp.Campd.Launching

/-!
# Whole runs

The loop over the declarations, the end of initialization, supervision and
shutdown in sequence: whatever the surroundings do, every entry that a run
records is as `EntryOk` requires.
-/

namespace Sandcamp.Campd
open Foundations

variable {launch : List CommonProcess} {w : World} {t : Trace} {k : ℕ} {process : LaunchProcess}

/-! ### The end of initialization -/

/-- The loop over the declarations has been left without a signal. -/
def Launched (launch : List CommonProcess) : Program.Assertion World Entry := fun w t =>
  Stage launch launch.length launch.length launch.length w t ∨ FailedStartup launch w t

theorem initializing_of_launched (h : Launched launch w t) : Initializing launch w t :=
  h.elim (·.toInitializing) (·.toInitializing)

theorem stage_of_launched (h : Launched launch w t) (hnone : w.supervisor.startupFailure = none) :
    Stage launch launch.length launch.length launch.length w t := by
  rcases h with h | h
  · exact h
  · have hsome := h.failure
    rw [hnone] at hsome
    cases hsome

theorem inv_completed (hnone : w.supervisor.startupFailure = none)
    (h : Stage launch launch.length launch.length launch.length w t) :
    Inv launch none w.withCompletion (⟨.initializationCompleted, w.withCompletion⟩ :: t) :=
  inv_withCompletion h.inv hnone h.registered h.calls fun i declaration hd =>
    (h.gates i (List.getElem?_eq_some_iff.mp hd).1 declaration hd).1

theorem triple_finishInitialization :
    Program.Triple (Launched launch) finishInitialization (fun _ => Inv launch none)
      (Stopped launch) :=
  Program.Logic.triple (holds_finishInitialization (F := Inv launch none)
    (R := fun w t => Inv launch none w t ∧ w.supervisor.ready = w.supervisor.readiness)
    (fun _ _ hnone h => ⟨trivial, inv_completed hnone (stage_of_launched h hnone)⟩)
    (fun _ _ _ h => (initializing_of_launched h).inv)
    (fun _ _ h => ⟨trivial, inv_updateReady h, rfl⟩)
    fun _ _ h => ⟨trivial, inv_finished .initialization h.1 h.2⟩)

/-! ### Supervision -/

theorem triple_drive_inv (wait : ℕ) :
    Program.Triple (Inv launch none) (drive wait) (Unless (Observed launch) (Inv launch none))
      (Stopped launch) :=
  triple_drive_until (fun _ _ h => h) (fun _ _ _ _ _ hkeep => hkeep.1) wait

/-! ### `run` -/

/-- Nothing has been launched, whatever the kernel is doing. -/
def Starting : Program.Assertion World Entry := fun w t =>
  w.supervisor = Supervisor.new ∧ w.groups = [] ∧ t = []

theorem safe_of_starting (h : Starting w t) : Safe launch t := by
  rw [h.2.2]
  exact always_nil _

theorem inv_of_starting (h : Starting w t) : Inv launch none w t := by
  obtain ⟨hsup, hgroups, ht⟩ := h
  have hnothing : ∀ (i : ℕ) (process : ManagedProcess),
      w.supervisor.processes[i]? ≠ some process := by
    intro i process hp
    rw [hsup] at hp
    cases hp
  have hcleanups : w.supervisor.cleanups = [] := by rw [hsup]; rfl
  exact
    { safe := by rw [ht]; exact always_nil _
      state := by
        rw [hsup, ht]
        exact
          { flag := fun hready => by cases hready
            exclusive := fun _ => rfl
            failed := fun ⟨_, he, _⟩ => (List.not_mem_nil he).elim
            completed := fun hm => (List.not_mem_nil hm).elim }
      running := fun signal hm => by rw [ht] at hm; cases hm
      unheard := fun signal hm => by rw [ht] at hm; cases hm
      grouped := by rw [hsup, hgroups]; rfl
      declared := fun i process hp => absurd hp (hnothing i process)
      alive := fun i process hp => absurd hp (hnothing i process)
      reaped := fun i process hp => absurd hp (hnothing i process)
      future := fun i _ => by
        rw [ht]
        exact ⟨fun ⟨_, _, hm⟩ => (List.not_mem_nil hm).elim, rfl⟩
      complete := fun hc => by rw [hsup] at hc; cases hc
      early := fun _ _ process hm => by rw [hsup] at hm; cases hm
      cause := fun hne => absurd hcleanups hne
      owner := fun cleanup hc => by rw [hcleanups] at hc; cases hc
      apart := fun cleanup hc => by rw [hcleanups] at hc; cases hc
      distinct := fun i j p q hp => absurd hp (hnothing i p)
      children := fun i process hp => absurd hp (hnothing i process)
      groups := fun i group process _ hp => absurd hp (hnothing i process) }

theorem stage_of_starting (h : Starting w t) : Stage launch 0 0 0 w t where
  inv := inv_of_starting h
  early := by rw [h.1]; rfl
  calls := by rw [h.2.2]; rfl
  registered := by rw [h.1]; rfl
  noJobFailed := fun i hm => by rw [h.2.2] at hm; cases hm
  noAbandoned := fun pid hm => by rw [h.2.2] at hm; cases hm
  gates := fun i hi => absurd hi (Nat.not_lt_zero i)

theorem common_of_flatten {host : Host} {spec : Spec} {declarations : List LaunchProcess}
    (hflatten : flatten host.passwd spec = .ok declarations) (hturn : declarations[k]? = some process) :
    spec.processes[k]? = some process.toCommonProcess := by
  rw [← flatten_common _ _ _ hflatten, List.getElem?_map, hturn, Option.map_some]

theorem length_of_flatten {host : Host} {spec : Spec} {declarations : List LaunchProcess}
    (hflatten : flatten host.passwd spec = .ok declarations) :
    declarations.length = spec.processes.length := by
  rw [← flatten_common _ _ _ hflatten, List.length_map]

theorem outline_stages {host : Host} {spec : Spec} {declarations : List LaunchProcess}
    (sandrun : Bytes) (hflatten : flatten host.passwd spec = .ok declarations) :
    Outline (.triples (Stopped spec.processes)) sandrun declarations
      (fun k => Stage spec.processes k k k) (fun k => Stage spec.processes (k + 1) (k + 1) k)
      (fun _ => Initializing spec.processes) (FailedStartup spec.processes)
      (Launched spec.processes) (Inv spec.processes none) (Observed spec.processes)
      (Ended spec.processes) where
  begin := fun _ => triple_drive_stage 0
  faulty := fun _ _ _ _ _ h => h.toInitializing
  spawn := fun k process hturn => by
    refine Program.Logic.pre _ (triple_spawn (k := k) sandrun).holds ?_
    exact fun w t h => ⟨h.2, common_of_flatten hflatten hturn, h.1, no_cleanup_of_stage h.2 h.1⟩
  gate := fun _ _ hturn => triple_passGate (common_of_flatten hflatten hturn)
  giveUp := triple_failStartup
  last := by
    rw [length_of_flatten hflatten]
    refine Program.Logic.conseq _ (triple_drive_stage 0).holds (fun _ _ h =>
      stage_of_launched h.2 h.1) fun signal w t h => ?_
    cases signal with
    | none => exact Or.inl h
    | some signal => exact h
  failed := fun _ _ _ h => by
    rw [length_of_flatten hflatten] at h
    exact h
  finish := triple_finishInitialization
  supervise := triple_drive_inv _
  shutdown := triple_shutdown
  stop := fun _ _ h => h.safe

theorem triple_run (host : Host) (spec : Spec) :
    Program.Triple Starting (run host spec) (Ended spec.processes) (Stopped spec.processes) := by
  obtain ⟨body, hrun, hbody⟩ := holds_run (P := Starting)
    (I := fun k => Stage spec.processes k k k) host spec (fun _ _ _ _ h => safe_of_starting h)
    (fun _ _ h => stage_of_starting h) fun sandrun _ hflatten => outline_stages sandrun hflatten
  rw [hrun]
  exact Program.triple_bind _ _ (Program.triple_modify _ fun _ _ h => h) fun _ => hbody

/-- Every run of campd is safe, and so is every prefix of it: on all kernels, for
all schedules of exits, probe results, signals, clock ticks and system-call answers. -/
theorem run_safe (host : Host) (spec : Spec) (kernel : Kernel) (schedule : List Turn) :
    Safe spec.processes (runTrace host spec kernel schedule) :=
  (triple_run host spec).reached ⟨rfl, rfl, rfl⟩ fun _ _ _ h => h.1

/-- A run ends with the exit code of a signal it has observed, after `terminate_groups` has
returned. -/
theorem run_ended (host : Host) (spec : Spec) (kernel : Kernel) (schedule : List Turn) (code : ℕ)
    (h : (run host spec (start kernel schedule)).1 = .value code) :
    ∃ signal groups, code = 128 + signal ∧
      Action.signalObserved signal ∈ acts (runTrace host spec kernel schedule) ∧
      Action.shutdownBegan signal ∈ acts (runTrace host spec kernel schedule) ∧
      Action.terminated groups ∈ acts (runTrace host spec kernel schedule) :=
  ((triple_run host spec).value ⟨rfl, rfl, rfl⟩ h).2

end Sandcamp.Campd
