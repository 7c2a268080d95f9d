import Sandcamp.Campd.Closing

/-!
# Launching one declaration after the other

`Stage` is what holds while declarations are launched: how many were launched, how
many are registered, how many have passed their gate, and that nothing has gone
wrong so far. `spawn` and the gates move it one step on or end the initialization.
-/

namespace Sandcamp.Campd
open Foundations

variable {launch : List CommonProcess} {w : World} {t : Trace}

/-- The first `passed` declarations have passed their gates; a job among them has
been reaped and has left no group behind. -/
def Passed (launch : List CommonProcess) (passed : ℕ) (w : World) (t : Trace) : Prop :=
  ∀ i < passed, ∀ declaration : CommonProcess, launch[i]? = some declaration →
    GatePassed i declaration t ∧ (declaration.kind = .runToCompletion →
      ∃ process, w.supervisor.processes[i]? = some process ∧ process.alive = false ∧
        process.residualGroup = false)

/-- Initialization goes on, and no signal has been observed. -/
structure Initializing (launch : List CommonProcess) (w : World) (t : Trace) : Prop where
  inv : Inv launch none w t
  early : w.supervisor.initializationComplete = false

structure Stage (launch : List CommonProcess) (calls registered passed : ℕ) (w : World)
    (t : Trace) : Prop extends Initializing launch w t where
  calls : launched t = calls
  registered : w.supervisor.processes.length = registered
  noJobFailed : ∀ i, Action.jobFailed i ∉ acts t
  noAbandoned : ∀ pid, Action.abandoned pid ∉ acts t
  gates : Passed launch passed w t

variable {calls registered passed : ℕ}

theorem stage_stable : Stable (Stage launch calls registered passed) :=
  fun _ _ kernel h hmoves => { h with inv := inv_kernel kernel h.inv hmoves }

theorem stage_stop (w : World) (t : Trace) (h : Stage launch calls registered passed w t) :
    Stopped launch w t :=
  h.inv.safe

theorem passed_cons (entry : Entry) (h : Passed launch passed w t) :
    Passed launch passed w (entry :: t) := by
  intro i hi declaration hd
  obtain ⟨hgate, hjob⟩ := h i hi declaration hd
  exact ⟨gatePassed_append [entry] hgate, hjob⟩

/-- A quiet stretch does not move the stage. -/
theorem stage_of_keeps {w₀ : World} {t₀ : Trace} (h : Stage launch calls registered passed w₀ t₀)
    (hkeep : Keeps launch none w₀ t₀ w t) : Stage launch calls registered passed w t where
  inv := hkeep.1
  early := hkeep.2.complete.trans h.early
  calls := (launched_quiet hkeep.2).trans h.calls
  registered := hkeep.2.length.trans h.registered
  noJobFailed := fun i hm => h.noJobFailed i (mem_acts_quiet rfl hkeep.2 hm)
  noAbandoned := fun pid hm => h.noAbandoned pid (mem_acts_quiet rfl hkeep.2 hm)
  gates := fun i hi declaration hd => by
    obtain ⟨hgate, hjob⟩ := h.gates i hi declaration hd
    obtain ⟨new, rfl, -⟩ := hkeep.2.grown
    refine ⟨gatePassed_append new hgate, fun hk => ?_⟩
    obtain ⟨old, ho, hdead, hres⟩ := hjob hk
    obtain ⟨process, hp, hpd, -, hpr⟩ := hkeep.2.reaped i old ho hdead
    exact ⟨process, hp, hpd, hpr.trans hres⟩

/-- Actions that a stage keeps count of. -/
def Action.counted : Action → Bool
  | .spawning _ | .jobFailed _ | .abandoned _ => true
  | _ => false

theorem mem_acts_uncounted {action other : Action} (hother : other.counted = false)
    (haction : action.counted = true) (h : action ∈ acts (⟨other, w⟩ :: t)) : action ∈ acts t := by
  refine mem_acts_of_ne ?_ h
  rintro rfl
  rw [hother] at haction
  cases haction

theorem initializing_record (action : Action) (hn : action.neutral = true)
    (hok : Required launch w t action) (h : Initializing launch w t) :
    Initializing launch w (⟨action, w⟩ :: t) where
  inv := inv_record action hn hok h.inv
  early := h.early

theorem stage_record (action : Action) (hn : action.neutral = true)
    (hc : action.counted = false) (hok : Required launch w t action)
    (h : Stage launch calls registered passed w t) :
    Stage launch calls registered passed w (⟨action, w⟩ :: t) where
  toInitializing := initializing_record action hn hok h.toInitializing
  calls := by
    rw [launched_cons_of_ne _ _ fun process he => ?_]
    · exact h.calls
    · cases he
      cases hc
  registered := h.registered
  noJobFailed := fun i hm => h.noJobFailed i (mem_acts_uncounted hc rfl hm)
  noAbandoned := fun pid hm => h.noAbandoned pid (mem_acts_uncounted hc rfl hm)
  gates := passed_cons _ h.gates

/-! ### `drive` between the statements of a launch -/

/-- `drive` goes on with what quiet stretches keep, until it sees the first signal. -/
theorem triple_drive_until {P : Program.Assertion World Entry}
    (hinv : ∀ w t, P w t → Inv launch none w t)
    (hkeep : ∀ w₀ t₀ w t, P w₀ t₀ → Keeps launch none w₀ t₀ w t → P w t) (wait : ℕ) :
    Program.Triple P (drive wait) (Unless (Observed launch) P) (Stopped launch) := by
  refine Program.triple_ghost _ fun w₀ t₀ h => ?_
  refine Program.triple_conseq _ (triple_drive w₀ t₀ wait) ?_ ?_
  · rintro w t ⟨rfl, rfl⟩
    exact ⟨hinv _ _ h, quiet_refl _ _⟩
  · intro signal w t hdriven
    cases signal with
    | none => exact hkeep w₀ t₀ w t h hdriven
    | some signal => exact hdriven

theorem triple_drive_stage (wait : ℕ) :
    Program.Triple (Stage launch calls registered passed) (drive wait)
      (Unless (Observed launch) (Stage launch calls registered passed)) (Stopped launch) :=
  triple_drive_until (fun _ _ h => h.inv) (fun _ _ _ _ h hkeep => stage_of_keeps h hkeep) wait

/-! ### Failure of the initialization -/

/-- Before initialization has completed the flag is down, as it has to be. -/
theorem required_finished_early (step : SupervisorStep) (h : Initializing launch w t) :
    Required launch w t (.finished step) := by
  refine iff_of_false (fun hready => ?_) fun hready => ?_
  · have hcomplete := h.inv.state.flag hready
    rw [h.early] at hcomplete
    cases hcomplete
  · have hcomplete := h.inv.state.completed hready.1
    rw [h.early] at hcomplete
    cases hcomplete

structure FailedStartup (launch : List CommonProcess) (w : World) (t : Trace) : Prop extends
    Initializing launch w t where
  failure : w.supervisor.startupFailure.isSome = true

theorem triple_failStartup (reason : Bytes) :
    Program.Triple (Initializing launch) (failStartup reason) (fun _ => FailedStartup launch)
      (Stopped launch) := by
  refine Program.Logic.triple (holds_failStartup reason (F := FailedStartup launch)
    (U := FailedStartup launch) (R := FailedStartup launch) (fun w t h => ⟨trivial, ?_⟩)
    (fun w t h => ⟨trivial, ?_⟩)
    (fun w t h => ⟨trivial, ⟨inv_updateReady h.inv, h.early⟩, h.failure⟩)
    fun w t h => ⟨trivial, ?_, h.failure⟩)
  · have hfailed : Initializing launch (w.withFailure reason) t :=
      ⟨inv_withFailure reason h.inv h.early, h.early⟩
    exact ⟨initializing_record _ rfl trivial hfailed, rfl⟩
  · have hsame : { w.supervisor with initializationComplete := false } = w.supervisor := by
      rw [← h.early]
    rw [hsame]
    exact h
  · exact initializing_record _ rfl (required_finished_early _ h.toInitializing) h.toInitializing

/-! ### `spawn` -/

/-- It is the turn of `process`: everything before it is in order. -/
structure Turned (launch : List CommonProcess) (k : ℕ) (process : LaunchProcess) (calls : ℕ)
    (w : World) (t : Trace) : Prop extends Stage launch calls k k w t where
  turn : launch[k]? = some process.toCommonProcess
  noFailure : w.supervisor.startupFailure = none
  noCleanup : w.supervisor.cleanups = []

variable {k : ℕ} {process : LaunchProcess}

/-- Its turn comes to a declaration while no process has left a group behind. -/
theorem no_residual_of_stage (h : Stage launch k k k w t)
    (hnone : w.supervisor.startupFailure = none) :
    ∀ process ∈ w.supervisor.processes, process.residualGroup = false := by
  intro process hm
  obtain ⟨i, hi⟩ := List.getElem?_of_mem hm
  have hlt : i < k := by
    rw [← h.registered]
    exact (List.getElem?_eq_some_iff.mp hi).1
  obtain ⟨declaration, hd, hk, -⟩ := h.inv.declared i process hi
  cases hkind : declaration.kind with
  | service =>
    have ha := h.inv.early h.early hnone process hm (hk.trans hkind)
    exact (h.inv.alive i process hi ha).2.2
  | runToCompletion =>
    obtain ⟨other, ho, -, hres⟩ := (h.gates i hlt declaration hd).2 hkind
    rw [hi] at ho
    cases ho
    exact hres

theorem no_cleanup_of_stage (h : Stage launch k k k w t)
    (hnone : w.supervisor.startupFailure = none) : w.supervisor.cleanups = [] := by
  by_contra hne
  rcases h.inv.cause hne with hc | hf | ⟨process, hm, hr⟩ | ⟨i, hm⟩
  · rw [h.early] at hc
    cases hc
  · rw [hnone] at hf
    cases hf
  · rw [no_residual_of_stage h hnone process hm] at hr
    cases hr
  · exact h.noJobFailed i hm

theorem launchOk_of_turned (h : Turned launch k process k w t) :
    LaunchOk launch w.supervisor t process.toCommonProcess where
  turn := by
    rw [h.calls]
    exact h.turn
  noSignal := h.inv.unheard
  noFailure := h.noFailure
  noCleanup := h.noCleanup
  gates := fun i hi declaration hd => by
    rw [h.calls] at hi
    refine ⟨(h.gates i hi declaration hd).1, fun hkind => ?_⟩
    have hlt : i < w.supervisor.processes.length := by
      rw [h.registered]
      exact hi
    have hp := List.getElem?_eq_getElem hlt
    obtain ⟨other, ho, hk, -⟩ := h.inv.declared i _ hp
    rw [hd] at ho
    cases ho
    have ha := h.inv.early h.early h.noFailure _ (List.mem_of_getElem? hp) (hk.trans hkind)
    exact (h.inv.alive i _ hp ha).1

theorem turned_spawning (h : Turned launch k process k w t) :
    Turned launch k process (k + 1) w (⟨.spawning process, w⟩ :: t) where
  inv := inv_record _ rfl (launchOk_of_turned h) h.inv
  early := h.early
  calls := by rw [launched_cons_spawning, h.calls]
  registered := h.registered
  noJobFailed := fun i hm => h.noJobFailed i (mem_acts_of_ne (by simp) hm)
  noAbandoned := fun pid hm => h.noAbandoned pid (mem_acts_of_ne (by simp) hm)
  gates := passed_cons _ h.gates
  turn := h.turn
  noFailure := h.noFailure
  noCleanup := h.noCleanup

theorem turned_stable : Stable (Turned launch k process calls) :=
  fun w t kernel h hmoves => { h with toStage := stage_stable w t kernel h.toStage hmoves }

/-- The child exists and is not registered yet. -/
def Forked (launch : List CommonProcess) (k : ℕ) (process : LaunchProcess) (group : GroupId) :
    Program.Assertion World Entry := fun w t =>
  Turned launch k process (k + 1) w t ∧ Fresh w group

theorem fresh_moves {group : GroupId} (kernel : Kernel) (h : Fresh w group)
    (hmoves : w.kernel.Moves kernel) : Fresh { w with kernel := kernel } group where
  child := hmoves.child _ h.child
  generation := Nat.lt_of_lt_of_le h.generation hmoves.generation
  unused := h.unused

theorem forked_stable (group : GroupId) : Stable (Forked launch k process group) :=
  fun w t kernel h hmoves =>
    ⟨turned_stable w t kernel h.1 hmoves, fresh_moves kernel h.2 hmoves⟩

theorem fresh_spawnChild (pid : ℕ) (h : Inv launch none w t) (hfree : w.kernel.inUse pid = false) :
    Fresh { w with kernel := (w.kernel.spawnChild pid).2 } (w.kernel.spawnChild pid).1 where
  child := ⟨_, List.mem_cons_self, rfl, rfl⟩
  generation := Nat.lt_succ_self _
  unused := fun process hp ha hpid => by
    obtain ⟨i, hi⟩ := List.getElem?_of_mem hp
    obtain ⟨entry, he, hepid, -⟩ := h.children i process hi ha (by simp)
    have hused : w.kernel.inUse pid = true := by
      refine List.any_eq_true.mpr ⟨entry, he, ?_⟩
      have hsame : entry.pid = pid := hepid.trans hpid
      simp [hsame]
    rw [hfree] at hused
    cases hused

theorem triple_commandSpawn (command : Command) (user : Option NumericUser) :
    Program.Triple (Turned launch k process (k + 1)) (commandSpawn command user)
      (Returned (fun _ => Turned launch k process (k + 1)) (Forked launch k process))
      (Stopped launch) := by
  refine Program.Logic.triple (holds_commandSpawn command user (F := Forked launch k process)
    (turned_stable.inTriples fun _ _ h => h.inv.safe) (fun _ _ h => h)
    (fun pid _ _ hfree h => ⟨trivial, ?_, fresh_spawnChild pid h.inv hfree⟩)
    fun group pid w t h => ⟨trivial, ?_, h.2⟩)
  · exact turned_stable _ _ _ h (Kernel.moves_spawnChild _ _)
  · exact { h.1 with toStage := stage_record _ rfl rfl trivial h.1.toStage }

theorem triple_spawnProbeWorker (index : ℕ) (group : GroupId) :
    Program.Triple (Forked launch k process group) (spawnProbeWorker index)
      (Returned (fun _ => Forked launch k process group) fun _ => Forked launch k process group)
      (Stopped launch) :=
  Program.Logic.triple (holds_spawnProbeWorker index
    ((forked_stable group).inTriples fun _ _ h => h.1.inv.safe) (fun _ _ h => h)
    fun w t h => ⟨trivial, forked_stable group w t _ h (Kernel.moves_workers _ _)⟩)

/-- A child that is given up: it will not be registered, and nobody else is left. -/
def GivenUp (launch : List CommonProcess) (group : GroupId) : Program.Assertion World Entry :=
  fun w t => Initializing launch w t ∧ Fresh w group

theorem givenUp_stable (group : GroupId) : Stable (GivenUp launch group) :=
  fun _ _ kernel h hmoves =>
    ⟨{ h.1 with inv := inv_kernel kernel h.1.inv hmoves }, fresh_moves kernel h.2 hmoves⟩

theorem givenUp_stop (group : GroupId) (w : World) (t : Trace) (h : GivenUp launch group w t) :
    Stopped launch w t :=
  h.1.inv.safe

theorem signalOk_of_givenUp (group : GroupId) (h : GivenUp launch group w t)
    (hlast : (acts t).head? = some (.abandoned group.number)) :
    SignalOk w.supervisor t group.number := by
  refine Or.inr ⟨Or.inr ⟨hlast, h.2.unused⟩, fun i other hp _ hne => ?_⟩
  refine h.2.unused other (List.mem_of_getElem? hp) ?_
  rw [registered_of_alive_link h.1.inv i other hp]
  exact hne

theorem givenUp_abandoned (group : GroupId) (h : Forked launch k process group w t) :
    (acts (⟨.abandoned group.number, w⟩ :: t)).head? = some (.abandoned group.number) ∧
      GivenUp launch group w (⟨.abandoned group.number, w⟩ :: t) :=
  ⟨rfl,
    { inv := inv_record_plain _ rfl h.1.inv
      early := h.1.early }, h.2⟩

theorem triple_reapPid (group : GroupId) :
    Program.Triple (GivenUp launch group) (reapPid group.number) (fun _ => Initializing launch)
      (Stopped launch) :=
  Program.Logic.triple (holds_reapPid group.number
    ((givenUp_stable group).inTriples (givenUp_stop group)) (fun _ _ h => h.1) fun _ _ h =>
      ⟨trivial, { h.1 with inv := inv_release_other _ h.1.inv h.2.unused }⟩)

theorem stage_register (group : GroupId) (h : Forked launch k process group w t) :
    Stage launch (k + 1) (k + 1) k (w.withProcess process.toCommonProcess group) t where
  inv := inv_withProcess process.toCommonProcess group h.1.inv (by rw [h.1.registered]; exact h.1.turn)
    h.1.noCleanup h.2
  early := h.1.early
  calls := h.1.calls
  registered := by
    have hlength := h.1.registered
    simp [World.withProcess, hlength]
  noJobFailed := h.1.noJobFailed
  noAbandoned := h.1.noAbandoned
  gates := fun i hi declaration hd => by
    obtain ⟨hgate, hjob⟩ := h.1.gates i hi declaration hd
    refine ⟨hgate, fun hk => ?_⟩
    obtain ⟨old, ho, hrest⟩ := hjob hk
    refine ⟨old, ?_, hrest⟩
    show (w.supervisor.processes ++ [newProcess process.toCommonProcess group.number])[i]? = some old
    rw [List.getElem?_append_left (List.getElem?_eq_some_iff.mp ho).1]
    exact ho

theorem stage_finished (step : SupervisorStep) (h : Stage launch calls registered passed w t) :
    Stage launch calls registered passed w (⟨.finished step, w⟩ :: t) :=
  stage_record _ rfl rfl (required_finished_early step h.toInitializing) h

theorem triple_register (group : GroupId) :
    Program.Triple (Forked launch k process group) (register process group)
      (fun index w t => index = k ∧ Stage launch (k + 1) (k + 1) k w t) (Stopped launch) := by
  refine Program.Logic.triple (holds_register process group
    (S := fun index w t => index = k ∧ Stage launch (k + 1) (k + 1) k w t)
    (U := fun index w t => index = k ∧ Stage launch (k + 1) (k + 1) k w t)
    (fun w t h => ⟨trivial, h.1.registered, ?_⟩)
    (fun index w t h => ⟨trivial, h.1, { h.2 with inv := inv_updateReady h.2.inv }⟩)
    fun index w t h => ⟨trivial, h.1, stage_finished _ h.2⟩)
  have hstage := stage_register group h
  exact stage_record _ rfl rfl hstage.noAbandoned hstage

theorem triple_spawn (sandrun : Bytes) :
    Program.Triple (Turned launch k process k) (spawn process sandrun)
      (Returned (fun _ => Initializing launch)
        fun index w t => index = k ∧ Stage launch (k + 1) (k + 1) k w t) (Stopped launch) := by
  refine Program.Logic.triple (holds_spawn process sandrun (C := Turned launch k process (k + 1))
    (G := Initializing launch) (A := Forked launch k process)
    (D := fun group w t => (acts t).head? = some (.abandoned group.number) ∧
      GivenUp launch group w t) (B := GivenUp launch)
    (fun w t h => ⟨trivial, turned_spawning h⟩) (fun _ _ w t h => h.inv.safe)
    (fun command user => ?_) (fun group index => triple_spawnProbeWorker index group)
    (fun group w t h => ⟨trivial, givenUp_abandoned group h⟩) (fun group => ?_) triple_reapPid
    (fun error w t h => ⟨trivial, initializing_record _ rfl (required_finished_early _ h) h⟩)
    triple_register)
  · refine Program.Logic.post _ (triple_commandSpawn command user).holds fun result w t h => ?_
    cases result with
    | error error => exact h.toInitializing
    | ok group => exact h
  · refine holds_signalGroup group.number sigkill ⟨fun w t events h => ⟨trivial, h.1, ?_⟩,
      fun w t h => h.2.1.inv.safe⟩ fun w t h => ⟨trivial, ?_, h.2.2⟩
    · exact (givenUp_stable group).steady w t events h.2
    · exact initializing_record _ rfl (signalOk_of_givenUp group h.2 h.1) h.2.1

/-! ### Gates -/

/-- How a gate ends: it is passed, initialization fails, or a signal has come. -/
def Gated (launch : List CommonProcess) (k : ℕ) : WaitOutcome → Program.Assertion World Entry :=
  GateEnds (Stage launch (k + 1) (k + 1) (k + 1)) (fun _ => Initializing launch) (Observed launch)

theorem passed_succ (hold : Passed launch k w t) (hturn : launch[k]? = some process.toCommonProcess)
    (hgate : GatePassed k process.toCommonProcess t)
    (hjob : process.kind = .runToCompletion → ∃ managed : ManagedProcess,
      w.supervisor.processes[k]? = some managed ∧ managed.alive = false ∧
        managed.residualGroup = false) : Passed launch (k + 1) w t := by
  intro i hi declaration hd
  rcases Nat.lt_succ_iff_lt_or_eq.mp hi with hlt | rfl
  · exact hold i hlt declaration hd
  · rw [hturn] at hd
    cases hd
    exact ⟨hgate, hjob⟩

/-- The probe of a started service is ready: its gate is passed. -/
theorem stage_probePassed (managed : ManagedProcess) (hturn : launch[k]? = some process.toCommonProcess)
    (hkind : process.kind = .service) (h : Stage launch (k + 1) (k + 1) k w t)
    (hp : w.supervisor.processes[k]? = some managed)
    (hready : managed.probe.any (fun probe => probe.health = .ready) = true) :
    Stage launch (k + 1) (k + 1) (k + 1) w (⟨.probePassed k, w⟩ :: t) := by
  obtain ⟨state, hstate, hhealth⟩ := (Option.any_eq_true _ _).mp hready
  have hseen : SeenReady w.supervisor k :=
    ⟨managed, state, hp, hstate, of_decide_eq_true hhealth⟩
  have hpassed := stage_record (.probePassed k) rfl rfl hseen h
  exact { hpassed with
    gates := by
      refine passed_succ hpassed.gates hturn ?_ fun hjob => ?_
      · rw [GatePassed, hkind]
        exact fun _ => ⟨_, List.mem_cons_self, rfl, hseen⟩
      · rw [hkind] at hjob
        cases hjob }

theorem stage_steady :
    SteadyIn (.triples (Stopped launch)) (Stage launch calls registered passed) :=
  stage_stable.inTriples stage_stop

theorem triple_waitForService (timeout : ℕ) (hturn : launch[k]? = some process.toCommonProcess)
    (hkind : process.kind = .service) :
    Program.Triple (Stage launch (k + 1) (k + 1) k) (waitForService k timeout) (Gated launch k)
      (Stopped launch) :=
  Program.Logic.triple (holds_waitForService (I := fun _ => Stage launch (k + 1) (k + 1) k)
    (D := fun _ => Stage launch (k + 1) (k + 1) k)
    (K := fun _ _ => Stage launch (k + 1) (k + 1) k) stage_steady (fun _ _ h => h)
    { steady := fun _ => stage_steady
      drive := fun _ => triple_drive_stage
      absent := fun _ _ _ _ => stage_stop _ _
      failed := fun _ _ _ _ _ h => h.toInitializing
      ready := fun _ managed _ _ _ hp hready h =>
        ⟨trivial, stage_probePassed managed hturn hkind h hp hready⟩
      looking := fun _ _ _ _ _ _ _ h => h
      looks := fun _ _ => stage_steady
      late := fun _ _ _ _ _ h => h.toInitializing
      again := fun _ _ _ _ h => h })

/-- A job has been reaped, with status 0 and without descendants: its gate is passed. -/
theorem stage_jobSucceeded (managed : ManagedProcess) (status : ℕ)
    (hturn : launch[k]? = some process.toCommonProcess) (hkind : process.kind = .runToCompletion)
    (h : Stage launch (k + 1) (k + 1) k w t)
    (hp : w.supervisor.processes[k]? = some managed) (hstatus : managed.exitStatus = some status)
    (hverdict : jobVerdict managed status = none) :
    Stage launch (k + 1) (k + 1) (k + 1) w (⟨.jobSucceeded k, w⟩ :: t) := by
  obtain ⟨hcode, hresidual⟩ := (jobVerdict_eq_none managed status).mp hverdict
  have hdead : managed.alive = false := by
    by_contra ha
    have hnone := (h.inv.alive k managed hp (by simpa using ha)).2.1
    rw [hstatus] at hnone
    cases hnone
  obtain ⟨other, hother, hm⟩ := h.inv.reaped k managed hp hdead
  rw [hstatus] at hother
  cases hother
  rw [hresidual] at hm
  have hplain : Stage launch (k + 1) (k + 1) k w (⟨.jobSucceeded k, w⟩ :: t) :=
    stage_record _ rfl rfl trivial h
  exact { hplain with
    gates := by
      refine passed_succ hplain.gates hturn ?_ fun _ => ⟨managed, hp, hdead, hresidual⟩
      rw [GatePassed, hkind]
      exact ⟨status, mem_acts_of_mem [_] hm, hcode⟩ }

/-- The gate of the job at `k` has failed. -/
structure JobLost (launch : List CommonProcess) (k : ℕ) (managed : ManagedProcess) (w : World)
    (t : Trace) : Prop extends Initializing launch w t where
  present : w.supervisor.processes[k]? = some managed
  job : managed.kind = .runToCompletion
  lost : Action.jobFailed k ∈ acts t

theorem jobLost_of_stage (managed : ManagedProcess) (hturn : launch[k]? = some process.toCommonProcess)
    (hkind : process.kind = .runToCompletion) (h : Stage launch calls registered passed w t)
    (hp : w.supervisor.processes[k]? = some managed) :
    JobLost launch k managed w (⟨.jobFailed k, w⟩ :: t) where
  inv := inv_record_plain _ rfl h.inv
  early := h.early
  present := hp
  job := by
    obtain ⟨declaration, hd, hk, -⟩ := h.inv.declared k managed hp
    rw [hturn] at hd
    cases hd
    exact hk.trans hkind
  lost := List.mem_cons_self

theorem mayClean_of_jobLost (managed : ManagedProcess) (ha : managed.alive = true)
    (h : JobLost launch k managed w t) : MayClean w.supervisor t managed.pid where
  owner := ⟨k, managed, h.present, rfl, Or.inr ⟨h.job, h.lost⟩⟩
  apart := fun other hm hk hb hpid => by
    obtain ⟨i, hi⟩ := List.getElem?_of_mem hm
    have hik := h.inv.distinct i k other managed hi h.present hb ha hpid
    rw [hik, h.present] at hi
    cases hi
    rw [h.job] at hk
    cases hk
  cause := Or.inr (Or.inr (Or.inr ⟨k, h.lost⟩))

theorem initializing_of_keeps {w₀ : World} {t₀ : Trace} (h : Initializing launch w₀ t₀)
    (hkeep : Keeps launch none w₀ t₀ w t) : Initializing launch w t where
  inv := hkeep.1
  early := hkeep.2.complete.trans h.early

theorem triple_cleanUpJob (managed : ManagedProcess) (ha : managed.alive = true) :
    Program.Triple (JobLost launch k managed) (scheduleCleanup managed.pid)
      (fun _ => Initializing launch) (Stopped launch) := by
  refine Program.triple_ghost _ fun w₀ t₀ h => ?_
  refine Program.triple_conseq _ (triple_scheduleCleanup w₀ t₀ managed.pid) ?_
    fun _ w t hkeep => initializing_of_keeps h.toInitializing hkeep
  rintro w t ⟨rfl, rfl⟩
  exact ⟨⟨h.inv, quiet_refl _ _⟩, mayClean_of_jobLost managed ha h⟩

theorem triple_waitForJob (timeout : ℕ) (hturn : launch[k]? = some process.toCommonProcess)
    (hkind : process.kind = .runToCompletion) :
    Program.Triple (Stage launch (k + 1) (k + 1) k) (waitForJob k timeout) (Gated launch k)
      (Stopped launch) := by
  refine Program.Logic.triple (holds_waitForJob (I := fun _ => Stage launch (k + 1) (k + 1) k)
    (D := fun _ => Stage launch (k + 1) (k + 1) k) (J := fun _ => JobLost launch k)
    (O := fun managed w t => managed.alive = true ∧ JobLost launch k managed w t)
    (K := fun _ managed w t => managed.exitStatus = none ∧
      w.supervisor.processes[k]? = some managed ∧ Stage launch (k + 1) (k + 1) k w t)
    stage_steady (fun _ _ h => h)
    { steady := fun _ => stage_steady
      drive := fun _ => triple_drive_stage
      absent := fun _ _ _ _ => stage_stop _ _
      failed := fun _ _ managed w t _ hp h =>
        ⟨trivial, jobLost_of_stage managed hturn hkind h hp⟩
      clean := fun _ managed halive => triple_cleanUpJob managed halive
      dead := fun _ _ _ _ _ h => h.toInitializing
      judged := fun _ managed _ _ w t _ hp _ _ h =>
        ⟨trivial, (jobLost_of_stage managed hturn hkind h hp).toInitializing⟩
      succeeded := fun _ managed status w t _ hp hstatus hverdict h =>
        ⟨trivial, stage_jobSucceeded managed status hturn hkind h hp hstatus hverdict⟩
      looking := fun _ _ _ _ _ hp hstatus h => ⟨hstatus, hp, h⟩
      looks := fun _ managed => ⟨fun w t events h =>
        ⟨trivial, h.1, h.2.1, stage_stable.steady w t events h.2.2⟩, fun _ _ h => h.2.2.inv.safe⟩
      late := fun _ managed w t _ h => ⟨trivial, ?_, jobLost_of_stage managed hturn hkind h.2.2 h.2.1⟩
      overdue := fun managed => Program.Logic.fact _ fun halive => triple_cleanUpJob managed halive
      again := fun _ _ _ _ h => h.2.2 })
  by_contra hdead
  obtain ⟨status, hs, -⟩ := h.2.2.inv.reaped k managed h.2.1 (by simpa using hdead)
  rw [h.1] at hs
  cases hs

/-- A service without a probe has no gate to wait at. -/
theorem stage_ungated (hturn : launch[k]? = some process.toCommonProcess)
    (hkind : process.kind = .service) (hprobe : process.readinessProbe = none)
    (h : Stage launch (k + 1) (k + 1) k w t) : Stage launch (k + 1) (k + 1) (k + 1) w t :=
  { h with
    gates := by
      refine passed_succ h.gates hturn ?_ fun hjob => ?_
      · rw [GatePassed, hkind]
        intro hsome
        rw [hprobe] at hsome
        cases hsome
      · rw [hkind] at hjob
        cases hjob }

theorem triple_passGate (hturn : launch[k]? = some process.toCommonProcess) :
    Program.Triple (Stage launch (k + 1) (k + 1) k) (passGate process k) (Gated launch k)
      (Stopped launch) :=
  Program.Logic.triple (holds_passGate process k
    (fun _ hkind _ => triple_waitForService _ hturn hkind)
    (fun hkind hprobe _ _ h => stage_ungated hturn hkind hprobe h)
    (fun _ hkind _ => triple_waitForJob _ hturn hkind) fun _ _ => stage_stop)

end Sandcamp.Campd
