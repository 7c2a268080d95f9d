import Sandcamp.Campd.Runs
import Sandcamp.Campd.WellFormed

/-!
# What campd guarantees

The four properties of the supervisor, read off the safety of its runs: launches
are gated, the published readiness is exact, services are isolated from the
cleanup of other processes, and shutdown reaches every group.
-/

namespace Sandcamp.Campd
open Foundations

variable {launch : List CommonProcess} {t : Trace}

theorem required_of_safe (hsafe : Safe launch t) {newer older : Trace} {entry : Entry}
    {action : Action} (he : t = newer ++ entry :: older) (ha : entry.action = action) :
    Required launch entry.world older action :=
  ha ▸ (hsafe newer entry older he).required

/-! ### The order of launches -/

/-- The declarations `spawn` was called for, in order. -/
def spawned : Trace → List CommonProcess
  | [] => []
  | entry :: older =>
    match entry.action with
    | .spawning process => spawned older ++ [process.toCommonProcess]
    | _ => spawned older

theorem spawned_cons_of_ne (entry : Entry) (t : Trace)
    (h : ∀ process, entry.action ≠ .spawning process) : spawned (entry :: t) = spawned t := by
  rw [spawned]
  split
  · rename_i process he
    exact absurd he (h process)
  · rfl

/-- The calls of `spawn` go through the launch list from its beginning. -/
theorem spawned_eq_take (h : Safe launch t) :
    spawned t = launch.take (launched t) ∧ launched t ≤ launch.length := by
  induction t with
  | nil => exact ⟨rfl, Nat.zero_le _⟩
  | cons entry older ih =>
    obtain ⟨hentry, holder⟩ := (always_cons _ _ _).mp h
    obtain ⟨htake, hle⟩ := ih holder
    by_cases hspawn : ∃ process, entry.action = .spawning process
    · obtain ⟨process, ha⟩ := hspawn
      obtain ⟨action, world⟩ := entry
      obtain rfl : action = .spawning process := ha
      have hturn := (required_of_safe h (List.nil_append _).symm rfl).turn
      have hlt := (List.getElem?_eq_some_iff.mp hturn).1
      rw [launched_cons_spawning]
      refine ⟨?_, hlt⟩
      show spawned older ++ [process.toCommonProcess] = _
      rw [htake, List.take_add_one, hturn, Option.toList_some]
    · have hne : ∀ process, entry.action ≠ .spawning process := fun process he => hspawn ⟨process, he⟩
      rw [spawned_cons_of_ne entry older hne, launched_cons_of_ne entry older hne]
      exact ⟨htake, hle⟩

/-- Launches follow the declaration, and each waits for everything before it. -/
structure LaunchesGated (spec : Spec) (t : Trace) : Prop where
  inOrder : spawned t <+: spec.processes
  once : ((spawned t).map (·.name)).Nodup
  gated : Always (fun entry older => ∀ process, entry.action = .spawning process →
    LaunchOk spec.processes entry.world.supervisor older process.toCommonProcess) t

theorem launches_gated (host : Host) (spec : Spec) (kernel : Kernel) (schedule : List Turn)
    (hvalid : validate spec = .ok ()) :
    LaunchesGated spec (runTrace host spec kernel schedule) := by
  have hsafe := run_safe host spec kernel schedule
  obtain ⟨htake, -⟩ := spawned_eq_take hsafe
  have hstart : spawned (runTrace host spec kernel schedule) <+: spec.processes := by
    rw [htake]
    exact List.take_prefix _ _
  exact
    { inOrder := hstart
      once := ((validate_eq_ok spec).mp hvalid).names.sublist (hstart.sublist.map _)
      gated := fun _ _ _ he _ ha => required_of_safe hsafe he ha }

/-- A main process without a probe. -/
def setupProcess (name : Bytes) (kind : ProcessKind) (completionTimeoutMs : Option UInt64) :
    MainProcess where
  name := name
  kind := kind
  command := [lit "/bin/run"]
  env := ∅
  workdir := []
  readinessProbe := none
  completionTimeoutMs := completionTimeoutMs
  user := none

/-- A job and a service that waits for it. -/
def setupSpec : Spec :=
  ⟨3, [], [setupProcess (lit "setup") .runToCompletion (some 1000),
    setupProcess (lit "server") .service none]⟩

def setupHost : Host := ⟨⟨.error [], .error []⟩, .ok (), .ok (lit "/opt/sandrun")⟩

def setupKernel : Kernel := ⟨[], 0, 0, 0, [], []⟩

/-- The job gets the number 108 and ends well after some time. -/
def setupSchedule : List Turn :=
  (List.range 60).map fun i => ⟨if i = 20 then [.exit 108 0] else [], .choose (100 + i)⟩

theorem setup_gated :
    LaunchesGated setupSpec (runTrace setupHost setupSpec setupKernel setupSchedule) ∧
      spawned (runTrace setupHost setupSpec setupKernel setupSchedule) = setupSpec.processes :=
  ⟨launches_gated setupHost setupSpec setupKernel setupSchedule (by decide +kernel),
    by decide +kernel⟩

/-! ### Readiness -/

/-- Once initialization has completed, everything was launched and has passed its
gate, and no failure has been recorded. -/
structure Initialized (launch : List CommonProcess) (sup : Supervisor) (older : Trace) : Prop where
  spawned : spawned older = launch
  gates : ∀ (i : ℕ) (declaration : CommonProcess), launch[i]? = some declaration →
    GatePassed i declaration older
  noFailure : sup.startupFailure = none
  neverFailed : ∀ entry ∈ older, entry.world.supervisor.startupFailure = none

theorem launched_append (new : Trace) : launched (new ++ t) = launched new + launched t := by
  rw [launched, List.countP_append, launched, launched]

theorem initialized_of_completed (sup : Supervisor) (hsafe : Safe launch t) (hstate : StateOk sup t)
    (hm : Action.initializationCompleted ∈ acts t) : Initialized launch sup t := by
  have hnone := hstate.exclusive (hstate.completed hm)
  obtain ⟨entry, he, ha⟩ := List.mem_map.mp hm
  obtain ⟨newer, older, rfl⟩ := List.append_of_mem he
  obtain ⟨hall, hgates⟩ := required_of_safe hsafe rfl ha
  obtain ⟨htake, hle⟩ := spawned_eq_take hsafe
  have hlength : launched (newer ++ entry :: older) = launch.length := by
    have hmore := launched_append (t := entry :: older) newer
    have hentry : launched (entry :: older) = launched older :=
      launched_cons_of_ne _ _ fun process hp => by rw [ha] at hp; cases hp
    omega
  refine
    { spawned := by rw [htake, hlength, List.take_length]
      gates := fun i declaration hd => ?_
      noFailure := hnone
      neverFailed := fun e hmem => ?_ }
  · have hpassed := gatePassed_append (newer ++ [entry]) (hgates i declaration hd)
    rwa [List.append_assoc, List.singleton_append] at hpassed
  · by_contra hne
    have hsome := hstate.failed ⟨e, hmem, Option.isSome_iff_ne_none.mpr hne⟩
    rw [hnone] at hsome
    cases hsome

/-- The published flag says exactly what the history of the run says. -/
structure ReadinessExact (spec : Spec) (t : Trace) : Prop where
  exact : Always (fun entry older => ∀ step, entry.action = .finished step →
    (entry.world.supervisor.ready = true ↔ ReadyNow spec.processes older)) t
  /-- A probe result counts only while its process has not been reaped. -/
  delivered : Always (fun entry older => ∀ i success, entry.action = .probed i success →
    ¬HasExited i older) t
  initialized : Always (fun entry older => Action.initializationCompleted ∈ acts older →
    Initialized spec.processes entry.world.supervisor older) t
  live : Always (fun entry older => ∀ step, entry.action = .finished step →
    entry.world.supervisor.ready = true → ∃ (i : ℕ) (declaration : CommonProcess),
      spec.processes[i]? = some declaration ∧ declaration.kind = .service ∧ ¬HasExited i older) t
  failed : Always (fun entry older => (∃ e ∈ entry :: older,
    e.world.supervisor.startupFailure.isSome = true) → entry.world.supervisor.ready = false) t
  exclusive : Always (fun entry _ => ¬(entry.world.supervisor.initializationComplete = true ∧
    entry.world.supervisor.startupFailure.isSome = true)) t

theorem unready_of_failed {sup : Supervisor} (h : StateOk sup t)
    (hf : sup.startupFailure.isSome = true) : sup.ready = false := by
  rw [Bool.eq_false_iff]
  intro hready
  rw [h.exclusive (h.flag hready)] at hf
  cases hf

theorem readiness_exact (host : Host) (spec : Spec) (kernel : Kernel) (schedule : List Turn)
    (hvalid : validate spec = .ok ()) :
    ReadinessExact spec (runTrace host spec kernel schedule) := by
  have hsafe := run_safe host spec kernel schedule
  have hexact : Always (fun entry older => ∀ step, entry.action = .finished step →
      (entry.world.supervisor.ready = true ↔ ReadyNow spec.processes older))
      (runTrace host spec kernel schedule) := fun _ _ _ he _ ha => required_of_safe hsafe he ha
  refine
    { exact := hexact
      delivered := fun _ _ _ he _ _ ha => required_of_safe hsafe he ha
      initialized := fun newer entry older he hm => ?_
      live := fun newer entry older he step ha hready => ?_
      failed := fun newer entry older he hfailed => ?_
      exclusive := fun newer entry older he hboth => ?_ }
  · have holder : Safe spec.processes older := fun n e o ho =>
      hsafe (newer ++ entry :: n) e o (by rw [he, ho, List.append_assoc, List.cons_append])
    exact initialized_of_completed _ holder (hsafe newer entry older he).state hm
  · obtain ⟨process, hmem, hkind⟩ := ((validate_eq_ok spec).mp hvalid).service
    obtain ⟨i, hi⟩ := List.getElem?_of_mem hmem
    have hall := ((hexact newer entry older he step ha).mp hready).2.2
    exact ⟨i, process, hi, hkind, (hall i process hi hkind).1⟩
  · have hstate := (hsafe newer entry older he).state
    obtain ⟨e, hmem, hf⟩ := hfailed
    rcases List.mem_cons.mp hmem with rfl | hmem
    · exact unready_of_failed hstate hf
    · exact unready_of_failed hstate (hstate.failed ⟨e, hmem, hf⟩)
  · have hnone := (hsafe newer entry older he).state.exclusive hboth.1
    have hsome := hboth.2
    rw [hnone] at hsome
    cases hsome

theorem setup_ready :
    ReadinessExact setupSpec (runTrace setupHost setupSpec setupKernel setupSchedule) ∧
      ∃ entry ∈ runTrace setupHost setupSpec setupKernel setupSchedule,
        entry.world.supervisor.ready = true :=
  ⟨readiness_exact setupHost setupSpec setupKernel setupSchedule (by decide +kernel),
    by decide +kernel⟩

/-! ### Isolation of services -/

/-- Who gets a signal before shutdown. The child of a launch that is abandoned is
never registered: nothing is registered after it. -/
structure ServicesIsolated (t : Trace) : Prop where
  signalled : Always (fun entry older => ∀ group signal, entry.action = .signalled group signal →
    SignalOk entry.world.supervisor older group) t
  unregistered : Always (fun entry older => ∀ index pid, entry.action = .started index pid →
    ∀ child, Action.abandoned child ∉ acts older) t

theorem services_isolated (host : Host) (spec : Spec) (kernel : Kernel) (schedule : List Turn) :
    ServicesIsolated (runTrace host spec kernel schedule) where
  signalled := fun _ _ _ he _ _ ha => required_of_safe (run_safe host spec kernel schedule) he ha
  unregistered := fun _ _ _ he _ _ ha =>
    required_of_safe (run_safe host spec kernel schedule) he ha

/-! ### Shutdown -/

theorem heeded_of_safe (h : Safe launch t) :
    Always (fun entry older => Heeds older entry.action) t :=
  fun newer entry older he => (h newer entry older he).heeds

structure ShutdownComplete (t : Trace) : Prop where
  heeded : Always (fun entry older => Heeds older entry.action) t
  terminating : Always (fun entry older => ∀ groups signal,
    entry.action = .terminating groups signal → TerminatingOk entry.world older groups signal) t
  terminated : Always (fun entry older => ∀ groups, entry.action = .terminated groups →
    TerminatedOk older groups) t

/-- Behind the signal that was observed only the shutdown follows: every group in use
when it was observed is signalled before anything else is done, and found empty or
killed; a run does not return before. -/
theorem shutdown_complete (host : Host) (spec : Spec) (kernel : Kernel) (schedule : List Turn) :
    ShutdownComplete (runTrace host spec kernel schedule) ∧
      ∀ code, (run host spec (start kernel schedule)).1 = .value code →
        ∃ groups, Action.terminated groups ∈ acts (runTrace host spec kernel schedule) := by
  have hsafe := run_safe host spec kernel schedule
  refine ⟨⟨heeded_of_safe hsafe,
    fun _ _ _ he _ _ ha => required_of_safe hsafe he ha,
    fun _ _ _ he _ ha => required_of_safe hsafe he ha⟩, fun code hcode => ?_⟩
  obtain ⟨_, groups, -, -, -, hterminated⟩ := run_ended host spec kernel schedule code hcode
  exact ⟨groups, hterminated⟩

end Sandcamp.Campd
