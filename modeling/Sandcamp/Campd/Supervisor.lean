import Sandcamp.Foundations.Program
import Sandcamp.Campd.Kernel
import Sandcamp.Campd.Launch

/-!
# The supervisor (runtime.rs:87-589, 1019-1105)

`run` and the methods of `Supervisor`, statement by statement, as a program that
takes a turn with its surroundings at every system call, channel read and atomic
load. A `Turn` carries the kernel events that happen before the interaction and
the way the interaction ends. What the program does is recorded in the trace;
most actions are the messages the source prints.
-/

namespace Sandcamp.Campd
open Foundations

/-! ### Constants, in nanoseconds -/

def millisecond : ℕ := 1000000
def shutdownGrace : ℕ := 5000 * millisecond
def killGrace : ℕ := 1000 * millisecond
def pollInterval : ℕ := 50 * millisecond

def sigkill : ℕ := 9
def sigterm : ℕ := 15

/-! ### Probe health (`runtime.rs:87-132`) -/

inductive ProbeHealth where
  | starting
  | ready
  | unready
  deriving DecidableEq, Repr

structure ProbeState where
  health : ProbeHealth
  consecutiveSuccesses : UInt32
  consecutiveFailures : UInt32
  successThreshold : UInt32
  failureThreshold : UInt32
  deriving DecidableEq

def ProbeState.new (probe : Probe) : ProbeState where
  health := .starting
  consecutiveSuccesses := 0
  consecutiveFailures := 0
  successThreshold := probe.successThreshold
  failureThreshold := probe.failureThreshold

/-- `u32::saturating_add(1)`. -/
def saturatingSucc (n : UInt32) : UInt32 := if n = 0xFFFFFFFF then n else n + 1

/-- `ProbeState::observe`: the new state and the change of health it reports. -/
def ProbeState.observe (state : ProbeState) (success : Bool) :
    ProbeState × Option (ProbeHealth × ProbeHealth) :=
  let previous := state.health
  let state :=
    if success then
      let state := { state with
        consecutiveFailures := 0
        consecutiveSuccesses := saturatingSucc state.consecutiveSuccesses }
      if state.successThreshold ≤ state.consecutiveSuccesses then
        { state with health := .ready }
      else state
    else
      let state := { state with
        consecutiveSuccesses := 0
        consecutiveFailures := saturatingSucc state.consecutiveFailures }
      if state.failureThreshold ≤ state.consecutiveFailures then
        { state with health := .unready }
      else state
  (state, if previous ≠ state.health then some (previous, state.health) else none)

/-! ### The supervisor's state (`runtime.rs:134-173`) -/

structure ManagedProcess where
  name : Bytes
  kind : ProcessKind
  pid : ℕ
  alive : Bool
  exitStatus : Option ℕ
  residualGroup : Bool
  probe : Option ProbeState
  probeCancel : Option Bool
  deriving DecidableEq

structure PendingCleanup where
  group : ℕ
  killAt : ℕ
  giveUpAt : ℕ
  killed : Bool
  deriving DecidableEq

structure Supervisor where
  /-- The published flag of the `ReadyState`. -/
  ready : Bool
  processes : List ManagedProcess
  cleanups : List PendingCleanup
  initializationComplete : Bool
  startupFailure : Option Bytes
  deriving DecidableEq

def Supervisor.new : Supervisor := ⟨false, [], [], false, none⟩

inductive WaitOutcome where
  | completed
  | failed (reason : Bytes)
  | signal (number : ℕ)

/-! ### Wait statuses (`runtime.rs:1086-1105`) -/

def wifexited (status : ℕ) : Bool := status % 128 = 0
def wexitstatus (status : ℕ) : ℕ := status / 256 % 256
def wifsignaled (status : ℕ) : Bool := 0 < status % 128 ∧ status % 128 < 127
def wtermsig (status : ℕ) : ℕ := status % 128

def exitCode (status : ℕ) : ℕ :=
  if wifexited status then wexitstatus status
  else if wifsignaled status then 128 + wtermsig status
  else 1

def displayStatus (status : ℕ) : Bytes :=
  if wifexited status then lit "exit(" ++ decimal (wexitstatus status) ++ lit ")"
  else if wifsignaled status then lit "signal(" ++ decimal (wtermsig status) ++ lit ")"
  else lit "status(" ++ decimal status ++ lit ")"

/-! ### Surroundings and trace -/

structure Turn where
  events : List KernelEvent
  answer : Kernel.Answer
  deriving DecidableEq

structure World where
  supervisor : Supervisor
  kernel : Kernel
  /-- The groups made by the spawns of the registered processes, in order. No
  code reads them. -/
  groups : List GroupId
  deriving DecidableEq

/-- The operations after which the ready flag has been refreshed. -/
inductive SupervisorStep where
  | spawn
  | drive
  | failStartup
  | initialization
  | shutdown
  deriving DecidableEq

inductive Action where
  /-- `Supervisor::spawn` is called. -/
  | spawning (process : LaunchProcess)
  | forked (pid : ℕ) (command : Command) (user : Option NumericUser)
  /-- The probe thread of a just-created child cannot be started. -/
  | abandoned (pid : ℕ)
  | started (index pid : ℕ)
  | exited (index status : ℕ) (residual : Bool)
  /-- A probe result is fed to a process that has not been reaped. -/
  | probed (index : ℕ) (success : Bool)
  | probePassed (index : ℕ)
  | jobSucceeded (index : ℕ)
  /-- The gate of a job is about to return `Failed`. -/
  | jobFailed (index : ℕ)
  /-- `process_group_exists(group)` has answered. -/
  | groupObserved (group : ℕ) (alive : Bool)
  /-- `kill(-group, signal)`. -/
  | signalled (group signal : ℕ)
  | cleanupAbandoned (group : ℕ)
  | signalObserved (signal : ℕ)
  | initializationCompleted
  | initializationFailed (reason : Bytes)
  | shutdownBegan (signal : ℕ)
  /-- `terminate_groups` is called. -/
  | terminating (groups : List ℕ) (signal : ℕ)
  | terminated (groups : List ℕ)
  | finished (step : SupervisorStep)
  deriving DecidableEq

structure Entry where
  action : Action
  world : World
  deriving DecidableEq

abbrev Act (α : Type) : Type := Program World Turn Entry (Failure RuntimeError) α

def record (action : Action) : Act Unit := Program.record fun world => ⟨action, world⟩

def supervisor : Act Supervisor := do
  let world ← Program.get
  pure world.supervisor

def modifySupervisor (f : Supervisor → Supervisor) : Act Unit :=
  Program.modify fun world => { world with supervisor := f world.supervisor }

def setKernel (kernel : Kernel) : Act Unit := Program.modify fun world => { world with kernel := kernel }

/-- One turn: the events happen, then the interaction ends as `answer` says. -/
def turn : Act (Kernel × Kernel.Answer) := do
  let turn ← Program.next
  Program.modify fun world => { world with kernel := world.kernel.applyAll turn.events }
  let world ← Program.get
  pure (world.kernel, turn.answer)

/-! ### System calls -/

def waitAny : Act Kernel.WaitResult := do
  let (kernel, answer) ← turn
  let (result, kernel) := kernel.waitAny answer
  setKernel kernel
  pure result

/-- `process_group_exists` (`runtime.rs:1079-1084`). -/
def processGroupExists (group : ℕ) : Act Bool := do
  let (kernel, _) ← turn
  let alive := kernel.groupExists group
  record (.groupObserved group alive)
  pure alive

/-- `signal_group` (`runtime.rs:1019-1026`). -/
def signalGroup (group signal : ℕ) : Act Unit := do
  let _ ← turn
  record (.signalled group signal)

/-- `Instant::now`. -/
def now : Act ℕ := do
  let (kernel, _) ← turn
  pure kernel.clock

/-- `thread::sleep`, for a time that only the surroundings know. -/
def sleep : Act Unit := do
  let _ ← turn
  pure ()

/-- `received_signal` (`runtime.rs:852-857`). -/
def receivedSignal : Act (Option ℕ) := do
  let (kernel, _) ← turn
  if kernel.receivedSignal = 0 then pure none
  else do
    record (.signalObserved kernel.receivedSignal)
    pure (some kernel.receivedSignal)

/-- The first probe event, if one has arrived. -/
def tryReceive : Act (Option ProbeEvent) := do
  let (kernel, _) ← turn
  match kernel.channel with
  | [] => pure none
  | event :: rest => do
    setKernel { kernel with channel := rest }
    pure (some event)

/-- `recv_timeout`: the events and the ticks of the turn are those of the time it
blocks, at most `limit`; how long that is does not matter to what follows. -/
def receiveTimeout (_limit : ℕ) : Act (Option ProbeEvent) := tryReceive

/-- `reap_pid` (`runtime.rs:1067-1077`): a wait that blocks until the child ends. -/
def reapPid (pid : ℕ) : Act Unit :=
  Program.loop (fun _ => do
    let (kernel, answer) ← turn
    match answer with
    | .interrupted => pure (.again ())
    | .failed _ => pure (.done ())
    | .choose _ =>
      match kernel.table.find? (fun p => p.pid = pid ∧ p.child) with
      | none => pure (.done ())
      | some p =>
        if p.status.isSome then do
          setKernel (kernel.release pid)
          pure (.done ())
        else pure (.again ())) ()

/-- `reap_any_available` (`runtime.rs:1057-1065`). -/
def reapAnyAvailable : Act Unit :=
  Program.loop (fun _ => do
    match ← waitAny with
    | .reaped _ _ => pure (.again ())
    | _ => pure (.done ())) ()

/-! ### Cleanup of leftover groups -/

/-- `schedule_cleanup` (`runtime.rs:526-540`). -/
def scheduleCleanup (group : ℕ) : Act Unit := do
  let alive ← processGroupExists group
  let sup ← supervisor
  if alive = false ∨ sup.cleanups.any (fun cleanup => cleanup.group = group) then pure ()
  else do
    signalGroup group sigterm
    let now ← now
    modifySupervisor fun sup => { sup with
      cleanups := sup.cleanups ++
        [⟨group, now + shutdownGrace, now + shutdownGrace + killGrace, false⟩] }

/-- The `SIGKILL` of the closure of `process_cleanups` (`runtime.rs:548-551`). -/
def killOverdue (now : ℕ) (cleanup : PendingCleanup) : Act PendingCleanup :=
  if cleanup.killed = false ∧ cleanup.killAt ≤ now then do
    signalGroup cleanup.group sigkill
    pure { cleanup with killed := true }
  else pure cleanup

/-- The closure of `process_cleanups` (`runtime.rs:544-560`). -/
def processCleanup (now : ℕ) (cleanup : PendingCleanup) : Act (Option PendingCleanup) := do
  let alive ← processGroupExists cleanup.group
  if alive = false then pure none
  else do
    let cleanup ← killOverdue now cleanup
    if cleanup.giveUpAt ≤ now then do
      record (.cleanupAbandoned cleanup.group)
      pure none
    else pure (some cleanup)

/-- `process_cleanups` (`runtime.rs:542-561`). -/
def processCleanups : Act Unit := do
  let now ← now
  let sup ← supervisor
  let kept ← Program.retain (processCleanup now) sup.cleanups
  modifySupervisor fun sup => { sup with cleanups := kept }

/-! ### Reaping, probe events, readiness -/

/-- The updates of `reap_available` for a reaped process (`runtime.rs:438-460`). -/
def Supervisor.markExited (sup : Supervisor) (index status : ℕ) (residual : Bool)
    (process : ManagedProcess) : Supervisor :=
  { sup with
    processes := sup.processes.set index { process with
      alive := false
      exitStatus := some status
      residualGroup := residual
      probeCancel := process.probeCancel.map fun _ => true }
    startupFailure :=
      if process.kind = .service ∧ sup.initializationComplete = false then
        some (sup.startupFailure.getD (lit "service process " ++ process.name ++
          lit " exited during initialization with " ++ displayStatus status))
      else sup.startupFailure }

/-- `if residual_group { self.schedule_cleanup(pid); }`. -/
def cleanUpResidual (residual : Bool) (pid : ℕ) : Act Unit :=
  if residual then scheduleCleanup pid else pure ()

/-- The rest of a round of `reap_available` once the process is found
(`runtime.rs:436-463`). -/
def reapFound (index pid status : ℕ) : Act Unit := do
  let residual ← processGroupExists pid
  let sup ← supervisor
  let process ← Program.ofExcept (expect sup.processes[index]?)
  modifySupervisor fun sup => sup.markExited index status residual process
  record (.exited index status residual)
  cleanUpResidual residual pid

/-- One round of `reap_available` for the pid `waitpid` has returned. -/
def reapProcess (pid status : ℕ) : Act Unit := do
  let sup ← supervisor
  match sup.processes.findIdx? (fun process => process.pid = pid ∧ process.alive = true) with
  | none => pure ()
  | some index => reapFound index pid status

/-- `reap_available` (`runtime.rs:424-475`). -/
def reapAvailable : Act Unit :=
  Program.loop (fun _ => do
    match ← waitAny with
    | .reaped pid status => do
      reapProcess pid status
      pure (.again ())
    | .running => pure (.done ())
    | .interrupted => pure (.again ())
    | .noChildren => pure (.done ())
    | .failed error => Program.raise (.error ⟨lit "wait for processes: " ++ error⟩)) ()

/-- `apply_probe_event` (`runtime.rs:483-499`). -/
def applyProbeEvent (event : ProbeEvent) : Act Unit := do
  let sup ← supervisor
  match sup.processes[event.processIndex]? with
  | none => pure ()
  | some process =>
    if process.alive = false then pure ()
    else
      match process.probe with
      | none => pure ()
      | some probe => do
        modifySupervisor fun sup => { sup with
          processes := sup.processes.set event.processIndex
            { process with probe := some (probe.observe event.success).1 } }
        record (.probed event.processIndex event.success)

/-- `drain_probe_events` (`runtime.rs:477-481`). -/
def drainProbeEvents : Act Unit :=
  Program.loop (fun _ => do
    match ← tryReceive with
    | none => pure (.done ())
    | some event => do
      applyProbeEvent event
      pure (.again ())) ()

/-- A process that does not stand in the way of readiness. -/
def ManagedProcess.isReady (process : ManagedProcess) : Bool :=
  process.alive && process.probe.all fun probe => probe.health = .ready

/-- The value `update_ready` publishes (`runtime.rs:501-515`). -/
def Supervisor.readiness (sup : Supervisor) : Bool :=
  sup.initializationComplete && sup.startupFailure.isNone &&
    (sup.processes.filter fun process => process.kind = .service).all ManagedProcess.isReady

/-- `update_ready`. -/
def updateReady : Act Unit := modifySupervisor fun sup => { sup with ready := sup.readiness }

/-- `fail_startup` (`runtime.rs:517-524`). -/
def failStartup (reason : Bytes) : Act Unit := do
  modifySupervisor fun sup => { sup with startupFailure := some (sup.startupFailure.getD reason) }
  record (.initializationFailed reason)
  modifySupervisor fun sup => { sup with initializationComplete := false }
  updateReady
  record (.finished .failStartup)

/-- `try_recv` without a wait, `recv_timeout(wait.min(POLL_INTERVAL))` otherwise. -/
def nextProbeEvent (wait : ℕ) : Act (Option ProbeEvent) :=
  if wait = 0 then tryReceive else receiveTimeout (min wait pollInterval)

/-- `if let Some(event) = event { .. }` (`runtime.rs:413-416`). -/
def applyProbeEvents : Option ProbeEvent → Act Unit
  | none => pure ()
  | some event => do
    applyProbeEvent event
    drainProbeEvents

/-- `drive` (`runtime.rs:396-422`). -/
def drive (wait : ℕ) : Act (Option ℕ) := do
  reapAvailable
  drainProbeEvents
  processCleanups
  updateReady
  match ← receivedSignal with
  | some signal => do
    record (.finished .drive)
    pure (some signal)
  | none => do
    let event ← nextProbeEvent wait
    applyProbeEvents event
    reapAvailable
    processCleanups
    updateReady
    let signal ← receivedSignal
    record (.finished .drive)
    pure signal

/-! ### Spawning -/

/-- `command.spawn()` with the closure that runs before `exec`
(`runtime.rs:257-276`): the group of the child, or the error. -/
def commandSpawn (command : Command) (user : Option NumericUser) :
    Act (Except Bytes GroupId) := do
  let (kernel, answer) ← turn
  match answer with
  | .failed error => pure (.error error)
  | .interrupted => pure (.error (lit "Interrupted system call"))
  | .choose pid =>
    if kernel.inUse pid ∨ pid = 0 then pure (.error (lit "Resource temporarily unavailable"))
    else do
      let (group, kernel) := kernel.spawnChild pid
      setKernel kernel
      record (.forked pid command user)
      pure (.ok group)

/-- `spawn_probe_worker` (`runtime.rs:913-939`), up to the start of the thread. -/
def spawnProbeWorker (processIndex : ℕ) : Act (Except Bytes Unit) := do
  let (kernel, answer) ← turn
  match answer with
  | .failed error => pure (.error error)
  | .interrupted => pure (.error (lit "Interrupted system call"))
  | .choose _ => do
    setKernel { kernel with workers := processIndex :: kernel.workers }
    pure (.ok ())

/-- The end of `spawn`: the child is registered (`runtime.rs:296-311`). -/
def register (process : LaunchProcess) (group : GroupId) : Act ℕ := do
  let sup ← supervisor
  let processIndex := sup.processes.length
  Program.modify fun world => { world with
    supervisor := { world.supervisor with
      processes := world.supervisor.processes ++ [{
        name := process.name
        kind := process.kind
        pid := group.number
        alive := true
        exitStatus := none
        residualGroup := false
        probe := process.readinessProbe.map ProbeState.new
        probeCancel := process.readinessProbe.map fun _ => false }] }
    groups := world.groups ++ [group] }
  record (.started processIndex group.number)
  updateReady
  record (.finished .spawn)
  pure processIndex

/-- `Supervisor::spawn` (`runtime.rs:256-312`). -/
def spawn (process : LaunchProcess) (sandrun : Bytes) : Act (Except Bytes ℕ) := do
  record (.spawning process)
  let command ← Program.ofExcept (buildCommand process sandrun)
  let user := match process.source with
    | .main user => user
    | .sidecar .. => none
  match ← commandSpawn command user with
  | .error error => do
    record (.finished .spawn)
    pure (.error error)
  | .ok group =>
    if process.readinessProbe.isSome then do
      let sup ← supervisor
      match ← spawnProbeWorker sup.processes.length with
      | .error error => do
        record (.abandoned group.number)
        signalGroup group.number sigkill
        reapPid group.number
        record (.finished .spawn)
        pure (.error error)
      | .ok () => do
        let index ← register process group
        pure (.ok index)
    else do
      let index ← register process group
      pure (.ok index)

/-! ### Gates -/

/-- `wait_duration` (`runtime.rs:1013-1017`). -/
def waitDuration (deadline : ℕ) : Act ℕ := do
  let now ← now
  pure (min (deadline - now) pollInterval)

/-- `wait_for_service` (`runtime.rs:314-344`). -/
def waitForService (processIndex timeout : ℕ) : Act WaitOutcome := do
  let now₀ ← now
  let deadline := now₀ + timeout
  Program.loop (fun _ => do
    let wait ← waitDuration deadline
    match ← drive wait with
    | some signal => pure (.done (.signal signal))
    | none => do
      let sup ← supervisor
      match sup.startupFailure with
      | some reason => pure (.done (.failed reason))
      | none => do
        let process ← Program.ofExcept (expect sup.processes[processIndex]?)
        if process.probe.any (fun probe => probe.health = .ready) then do
          record (.probePassed processIndex)
          pure (.done .completed)
        else do
          let now ← now
          if deadline ≤ now then
            pure (.done (.failed (lit "readiness probe timed out for " ++ process.name ++
              lit " after " ++ decimal (timeout / millisecond) ++ lit "ms")))
          else pure (.again ())) ()

/-- What `wait_for_job` makes of a reaped job (`runtime.rs:364-384`). -/
def jobVerdict (process : ManagedProcess) (status : ℕ) : Option Bytes :=
  if exitCode status ≠ 0 then
    some (lit "run-to-completion process " ++ process.name ++ lit " failed with " ++
      displayStatus status)
  else if process.residualGroup then
    some (lit "run-to-completion process " ++ process.name ++
      lit " left descendants in its process group")
  else none

theorem jobVerdict_eq_none (process : ManagedProcess) (status : ℕ) :
    jobVerdict process status = none ↔ exitCode status = 0 ∧ process.residualGroup = false := by
  unfold jobVerdict
  split
  · simp_all
  · split <;> simp_all

/-- `if process.alive { self.schedule_cleanup(process.pid); }`. -/
def cleanUpAlive (process : ManagedProcess) : Act Unit :=
  if process.alive then scheduleCleanup process.pid else pure ()

/-- `wait_for_job` (`runtime.rs:346-394`). -/
def waitForJob (processIndex timeout : ℕ) : Act WaitOutcome := do
  let now₀ ← now
  let deadline := now₀ + timeout
  Program.loop (fun _ => do
    let wait ← waitDuration deadline
    match ← drive wait with
    | some signal => pure (.done (.signal signal))
    | none => do
      let sup ← supervisor
      let process ← Program.ofExcept (expect sup.processes[processIndex]?)
      match sup.startupFailure with
      | some reason => do
        record (.jobFailed processIndex)
        cleanUpAlive process
        pure (.done (.failed reason))
      | none =>
        match process.exitStatus with
        | some status =>
          match jobVerdict process status with
          | some reason => do
            record (.jobFailed processIndex)
            pure (.done (.failed reason))
          | none => do
            record (.jobSucceeded processIndex)
            pure (.done .completed)
        | none => do
          let now ← now
          if deadline ≤ now then do
            record (.jobFailed processIndex)
            scheduleCleanup process.pid
            pure (.done (.failed (lit "run-to-completion process " ++ process.name ++
              lit " timed out after " ++ decimal (timeout / millisecond) ++ lit "ms")))
          else pure (.again ())) ()

/-! ### Shutdown -/

/-- The body of the closure `|group| process_group_exists(*group)`. -/
def keepExisting (group : ℕ) : Act (Option ℕ) := do
  let alive ← processGroupExists group
  pure (if alive then some group else none)

/-- `if !remaining.is_empty() { thread::sleep(POLL_INTERVAL); }`. -/
def sleepUnlessDone (remaining : List ℕ) : Act Unit := if remaining ≠ [] then sleep else pure ()

/-- The two waiting loops of `terminate_groups`: the groups left at the deadline. -/
def awaitGroups (deadline : ℕ) (groups : List ℕ) : Act (List ℕ) :=
  Program.loop (fun remaining => do
    if remaining = [] then pure (.done remaining)
    else do
      let now ← now
      if deadline ≤ now then pure (.done remaining)
      else do
        reapAnyAvailable
        let remaining ← Program.retain keepExisting remaining
        sleepUnlessDone remaining
        pure (.again remaining)) groups

/-- `terminate_groups` (`runtime.rs:1028-1055`). The set is a list without
repetition; no order of it is relied on. -/
def terminateGroups (groups : List ℕ) (signal : ℕ) : Act Unit := do
  record (.terminating groups signal)
  Program.each (fun group => signalGroup group signal) groups
  let now₁ ← now
  let remaining ← awaitGroups (now₁ + shutdownGrace) groups
  Program.each (fun group => signalGroup group sigkill) remaining
  let now₂ ← now
  let _ ← awaitGroups (now₂ + killGrace) remaining
  record (.terminated groups)

/-- The set of groups `shutdown` terminates (`runtime.rs:578-585`). -/
def Supervisor.shutdownGroups (sup : Supervisor) : List ℕ :=
  (((sup.processes.filter fun process => process.alive || process.residualGroup).map (·.pid)) ++
    sup.cleanups.map (·.group)).dedup

/-- `shutdown` (`runtime.rs:571-589`). -/
def shutdown (signal : ℕ) : Act ℕ := do
  record (.shutdownBegan signal)
  modifySupervisor fun sup => { sup with ready := false }
  modifySupervisor fun sup => { sup with
    processes := sup.processes.map fun process =>
      { process with probeCancel := process.probeCancel.map fun _ => true } }
  let _ ← turn
  let sup ← supervisor
  terminateGroups sup.shutdownGroups signal
  record (.finished .shutdown)
  pure (128 + signal)

/-- `supervise` (`runtime.rs:563-569`). -/
def supervise : Act ℕ :=
  Program.loop (fun _ => do
    match ← drive pollInterval with
    | some signal => do
      let code ← shutdown signal
      pure (.done code)
    | none => pure (.again ())) ()

/-! ### The whole run -/

/-- How a round of the loop over the declarations ends. -/
inductive LaunchRound where
  | next
  | leave
  | exit (code : ℕ)

/-- The gate of a started process (`runtime.rs:207-220`). -/
def passGate (process : LaunchProcess) (processIndex : ℕ) : Act WaitOutcome :=
  match process.kind with
  | .service =>
    match process.readinessProbe with
    | some probe => waitForService processIndex (probe.startupTimeoutMs.toNat * millisecond)
    | none => pure .completed
  | .runToCompletion => do
    let timeout ← Program.ofExcept (expect process.completionTimeoutMs)
    waitForJob processIndex (timeout.toNat * millisecond)

/-- One round of the loop over the declarations (`runtime.rs:182-228`). -/
def launchRound (sandrun : Bytes) (process : LaunchProcess) : Act LaunchRound := do
  match ← drive 0 with
  | some signal => do
    let code ← shutdown signal
    pure (.exit code)
  | none => do
    let sup ← supervisor
    match sup.startupFailure with
    | some reason => do
      failStartup reason
      pure .leave
    | none => do
      match ← spawn process sandrun with
      | .error error => do
        failStartup (lit "failed to start " ++ process.name ++ lit ": " ++ error)
        pure .leave
      | .ok processIndex => do
        match ← passGate process processIndex with
        | .completed => pure .next
        | .failed reason => do
          failStartup reason
          pure .leave
        | .signal signal => do
          let code ← shutdown signal
          pure (.exit code)

/-- The loop over the declarations: the exit code of a run that ends in it. -/
def launchAll (sandrun : Bytes) : List LaunchProcess → Act (Option ℕ)
  | [] => pure none
  | process :: rest => do
    match ← launchRound sandrun process with
    | .next => launchAll sandrun rest
    | .leave => pure none
    | .exit code => pure (some code)

/-- The last step of initialization (`runtime.rs:235-239`). -/
def markComplete : Act Unit := do
  let sup ← supervisor
  if sup.startupFailure.isNone then do
    modifySupervisor fun sup => { sup with initializationComplete := true }
    record .initializationCompleted
  else pure ()

def finishInitialization : Act Unit := do
  markComplete
  updateReady
  record (.finished .initialization)

/-- The end of initialization (`runtime.rs:230-239`). -/
def completeInitialization : Act (Option ℕ) := do
  let sup ← supervisor
  if sup.startupFailure.isNone then do
    match ← drive 0 with
    | some signal => do
      let code ← shutdown signal
      pure (some code)
    | none => do
      finishInitialization
      pure none
  else do
    finishInitialization
    pure none

/-- What the host answers before the first child is created. -/
structure Host where
  passwd : PasswdFile
  /-- `install_runtime_contract`. -/
  contract : Except RuntimeError Unit
  /-- `sandrun_path`. -/
  sandrun : Except RuntimeError Bytes

/-- `run` (`runtime.rs:175-240`). -/
def run (host : Host) (spec : Spec) : Act ℕ := do
  Program.modify fun world => { world with kernel := { world.kernel with receivedSignal := 0 } }
  Program.ofExcept (host.contract.mapError Failure.error)
  let sandrun ← Program.ofExcept (host.sandrun.mapError Failure.error)
  let declarations ← Program.ofExcept (flatten host.passwd spec)
  match ← launchAll sandrun declarations with
  | some code => pure code
  | none => do
    match ← completeInitialization with
    | some code => pure code
    | none => supervise

/-- A run begins without processes, on any kernel and with any schedule. -/
def start (kernel : Kernel) (schedule : List Turn) : Run World Turn Entry where
  state := ⟨Supervisor.new, kernel, []⟩
  schedule := schedule
  trace := []

/-- Everything a prefix of a run of a declaration has recorded. -/
def runTrace (host : Host) (spec : Spec) (kernel : Kernel) (schedule : List Turn) : List Entry :=
  (run host spec (start kernel schedule)).2.trace

end Sandcamp.Campd
