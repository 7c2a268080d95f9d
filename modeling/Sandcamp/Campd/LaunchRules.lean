import Sandcamp.Campd.RoundRules

/-!
# The rules of a run

One rule for each function of a launch, of the gates and of the run around them, in any logic. The
rules of the gates and of the run have their assertions and obligations collected in a record.
-/

namespace Sandcamp.Campd
open Foundations

variable {L : Program.Logic World Turn Entry (Failure RuntimeError)}
  {P Q R : Program.Assertion World Entry}

/-! ### Updates -/

def newProcess (declaration : CommonProcess) (pid : ℕ) : ManagedProcess where
  name := declaration.name
  kind := declaration.kind
  pid := pid
  alive := true
  exitStatus := none
  residualGroup := false
  probe := declaration.readinessProbe.map ProbeState.new
  probeCancel := declaration.readinessProbe.map fun _ => false

def World.withProcess (w : World) (declaration : CommonProcess) (group : GroupId) : World :=
  { w with
    supervisor := { w.supervisor with
      processes := w.supervisor.processes ++ [newProcess declaration group.number] }
    groups := w.groups ++ [group] }

def World.withFailure (w : World) (reason : Bytes) : World :=
  { w with supervisor := { w.supervisor with
      startupFailure := some (w.supervisor.startupFailure.getD reason) } }

def World.withCompletion (w : World) : World :=
  { w with supervisor := { w.supervisor with initializationComplete := true } }

/-- What `update_ready` makes of the world. -/
def World.refreshed (w : World) : World :=
  { w with supervisor := { w.supervisor with ready := w.supervisor.readiness } }

/-! ### How a call ends -/

def Returned {α : Type} (F : Bytes → Program.Assertion World Entry)
    (A : α → Program.Assertion World Entry) : Except Bytes α → Program.Assertion World Entry
  | .error error => F error
  | .ok a => A a

def GateEnds (N : Program.Assertion World Entry) (F : Bytes → Program.Assertion World Entry)
    (S : ℕ → Program.Assertion World Entry) : WaitOutcome → Program.Assertion World Entry
  | .completed => N
  | .failed reason => F reason
  | .signal signal => S signal

def RoundEnds (N V : Program.Assertion World Entry) (X : ℕ → Program.Assertion World Entry) :
    LaunchRound → Program.Assertion World Entry
  | .next => N
  | .leave => V
  | .exit code => X code

/-! ### `spawn` -/

theorem holds_commandSpawn {F : GroupId → Program.Assertion World Entry}
    {A : GroupId → Program.Assertion World Entry} (command : Command) (user : Option NumericUser)
    (hP : SteadyIn L P) (hfailed : ∀ w t, P w t → Q w t)
    (hchild : ∀ pid w t, w.kernel.inUse pid = false → P w t →
      Program.Leads L.step (F (w.kernel.spawnChild pid).1) w t
        { w with kernel := (w.kernel.spawnChild pid).2 } t)
    (hforked : ∀ group pid w t, F group w t →
      Program.Leads L.step (A group) w t w (⟨.forked pid command user, w⟩ :: t)) :
    L.Holds P (commandSpawn command user) (Returned (fun _ => Q) A) := by
  refine L.bind (holds_turn hP) fun r => ?_
  obtain ⟨kernel, answer⟩ := r
  cases answer with
  | failed error => exact L.pure _ fun w t h => hfailed w t h.2
  | interrupted => exact L.pure _ fun w t h => hfailed w t h.2
  | choose pid =>
    by_cases hused : kernel.inUse pid = true ∨ pid = 0
    · simp only [if_pos hused]
      exact L.pure _ fun w t h => hfailed w t h.2
    · simp only [if_neg hused]
      rw [not_or, Bool.not_eq_true] at hused
      refine L.bind (L.modify (R := F (kernel.spawnChild pid).1) _ fun w t h => ?_) fun _ => ?_
      · obtain rfl : kernel = w.kernel := h.1
        exact hchild pid w t hused.1 h.2
      · exact L.bind (L.record (R := A (kernel.spawnChild pid).1) _ fun w t h =>
          hforked _ pid w t h) fun _ => L.pure _ fun _ _ h => h

theorem holds_spawnProbeWorker {A : Program.Assertion World Entry} (index : ℕ)
    (hP : SteadyIn L P) (hfailed : ∀ w t, P w t → Q w t)
    (hworker : ∀ w t, P w t → Program.Leads L.step A w t
      { w with kernel := { w.kernel with workers := index :: w.kernel.workers } } t) :
    L.Holds P (spawnProbeWorker index) (Returned (fun _ => Q) fun _ => A) := by
  refine L.bind (holds_turn hP) fun r => ?_
  obtain ⟨kernel, answer⟩ := r
  cases answer with
  | failed error => exact L.pure _ fun w t h => hfailed w t h.2
  | interrupted => exact L.pure _ fun w t h => hfailed w t h.2
  | choose n =>
    refine L.bind (L.modify (R := A) _ fun w t h => ?_) fun _ => L.pure _ fun _ _ h => h
    obtain rfl : kernel = w.kernel := h.1
    exact hworker w t h.2

theorem holds_reapPid (pid : ℕ) (hP : SteadyIn L P) (hgone : ∀ w t, P w t → Q w t)
    (hreleased : ∀ w t, P w t →
      Program.Leads L.step Q w t { w with kernel := w.kernel.release pid } t) :
    L.Holds P (reapPid pid) fun _ => Q := by
  refine L.loop (I := fun _ => P) _ () (fun _ => ?_) fun _ => hP.stop
  refine L.bind (holds_turn hP) fun r => ?_
  obtain ⟨kernel, answer⟩ := r
  cases answer with
  | failed error => exact L.pure _ fun w t h => hgone w t h.2
  | interrupted => exact L.pure _ fun w t h => h.2
  | choose n =>
    dsimp only
    split
    · exact L.pure _ fun w t h => hgone w t h.2
    · split
      · refine L.bind (L.modify (R := Q) _ fun w t h => ?_) fun _ => L.pure _ fun _ _ h => h
        obtain rfl : kernel = w.kernel := h.1
        exact hreleased w t h.2
      · exact L.pure _ fun w t h => h.2

/-- `S` holds once the child is registered, `U` once the flag was refreshed. -/
theorem holds_register {S U A : ℕ → Program.Assertion World Entry} (process : LaunchProcess)
    (group : GroupId)
    (hregistered : ∀ w t, P w t → Program.Leads L.step (S w.supervisor.processes.length) w t
      (w.withProcess process.toCommonProcess group)
      (⟨.started w.supervisor.processes.length group.number,
        w.withProcess process.toCommonProcess group⟩ :: t))
    (hupdate : ∀ index w t, S index w t → Program.Leads L.step (U index) w t w.refreshed t)
    (hfinished : ∀ index w t, U index w t →
      Program.Leads L.step (A index) w t w (⟨.finished .spawn, w⟩ :: t)) :
    L.Holds P (register process group) A := by
  refine L.bind holds_supervisor fun sup => ?_
  refine L.updateBind (R := S sup.processes.length) _ _ _ ?_ ?_
  · rintro w t ⟨rfl, h⟩
    exact hregistered w t h
  · refine L.bind (holds_modifySupervisor _ (hupdate sup.processes.length)) fun _ => ?_
    exact L.bind (L.record (R := A sup.processes.length) _ (hfinished sup.processes.length))
      fun _ => L.pure _ fun _ _ h => h

/-- `C` holds once the call is on record, `A` of a child that is not registered, `D` and `B` while
it is given up, `G` when nothing has come of the call. -/
theorem holds_spawn {C G : Program.Assertion World Entry}
    {A D B : GroupId → Program.Assertion World Entry} {F : Bytes → Program.Assertion World Entry}
    {S : ℕ → Program.Assertion World Entry} (process : LaunchProcess) (sandrun : Bytes)
    (hcalled : ∀ w t, P w t → Program.Leads L.step C w t w (⟨.spawning process, w⟩ :: t))
    (hcommand : ∀ e, buildCommand process sandrun = .error e → ∀ w t, C w t → L.raised e w t)
    (hfork : ∀ command user, L.Holds C (commandSpawn command user) (Returned (fun _ => G) A))
    (hworker : ∀ group index, L.Holds (A group) (spawnProbeWorker index)
      (Returned (fun _ => A group) fun _ => A group))
    (habandoned : ∀ group w t, A group w t →
      Program.Leads L.step (D group) w t w (⟨.abandoned group.number, w⟩ :: t))
    (hkilled : ∀ group, L.Holds (D group) (signalGroup group.number sigkill) fun _ => B group)
    (hreaped : ∀ group, L.Holds (B group) (reapPid group.number) fun _ => G)
    (hfinished : ∀ error w t, G w t →
      Program.Leads L.step (F error) w t w (⟨.finished .spawn, w⟩ :: t))
    (hregister : ∀ group, L.Holds (A group) (register process group) S) :
    L.Holds P (spawn process sandrun) (Returned F S) := by
  have hend : ∀ error, L.Holds G (do
      record (.finished .spawn)
      pure (.error error : Except Bytes ℕ)) (Returned F S) := fun error =>
    L.bind (L.record (R := F error) _ (hfinished error)) fun _ => L.pure _ fun _ _ h => h
  have hregistered : ∀ group, L.Holds (A group) (do
      let index ← register process group
      pure (.ok index : Except Bytes ℕ)) (Returned F S) := fun group =>
    L.bind (hregister group) fun _ => L.pure _ fun _ _ h => h
  refine L.bind (L.record (R := C) _ hcalled) fun _ => ?_
  refine L.bind (L.ofExcept (Q := fun _ => C) _ (fun _ _ _ _ h => h) hcommand) fun command => ?_
  refine L.bind (hfork command _) fun result => ?_
  cases result with
  | error error => exact hend error
  | ok group =>
    by_cases hprobe : process.readinessProbe.isSome = true
    · simp only [if_pos hprobe]
      refine L.bind holds_supervisor fun sup => ?_
      refine L.bind (L.pre (hworker group sup.processes.length) fun w t h => h.2) fun result => ?_
      cases result with
      | error error =>
        refine L.bind (L.record (R := D group) _ (habandoned group)) fun _ => ?_
        refine L.bind (hkilled group) fun _ => ?_
        exact L.bind (hreaped group) fun _ => hend error
      | ok _ => exact hregistered group
    · simp only [if_neg hprobe]
      exact hregistered group

/-! ### Gates -/

/-- A round of a gate goes on, or the gate ends. -/
def Rounded (I : Program.Assertion World Entry) (Q : WaitOutcome → Program.Assertion World Entry) :
    Program.Round Unit WaitOutcome → Program.Assertion World Entry
  | .again _ => I
  | .done outcome => Q outcome

section Waiting
variable {I D : ℕ → Program.Assertion World Entry} {Q : WaitOutcome → Program.Assertion World Entry}

/-- `I now₀` holds between the rounds of the gate that was entered at `now₀`, `D now₀` when its
`drive` has seen no signal. -/
theorem holds_waiting (timeout : ℕ) (body : ℕ → Act (Program.Round Unit WaitOutcome))
    (hP : SteadyIn L P) (hentered : ∀ w t, P w t → I w.kernel.clock w t)
    (hI : ∀ now₀, SteadyIn L (I now₀))
    (hdrive : ∀ now₀ wait, L.Holds (I now₀) (drive wait)
      (Unless (fun signal => Q (.signal signal)) (D now₀)))
    (hbody : ∀ now₀, L.Holds (D now₀) (body now₀) (Rounded (I now₀) Q)) :
    L.Holds P (do
      let now₀ ← now
      Program.loop (fun _ => do
        let wait ← waitDuration (now₀ + timeout)
        match ← drive wait with
        | some signal => pure (.done (.signal signal))
        | none => body now₀) ()) Q := by
  refine L.bind (holds_now hP) fun now₀ => ?_
  have hstart : ∀ (w : World) (t : List Entry), (now₀ = w.kernel.clock ∧ P w t) → I now₀ w t := by
    rintro w t ⟨rfl, h⟩
    exact hentered w t h
  refine L.pre ?_ hstart
  refine L.loop (I := fun _ => I now₀) _ () (fun _ => ?_) fun _ => (hI now₀).stop
  have hwait : L.Holds (I now₀) (waitDuration (now₀ + timeout)) fun _ => I now₀ :=
    L.bind (holds_now (hI now₀)) fun _ => L.pure _ fun _ _ h => h.2
  refine L.bind hwait fun wait => ?_
  refine L.bind (hdrive now₀ wait) fun signal => ?_
  cases signal with
  | some signal => exact L.pure _ fun _ _ h => h
  | none =>
    refine L.post (hbody now₀) fun round w t h => ?_
    cases round with
    | again _ => exact h
    | done outcome => exact h

/-- A gate looks at its process. -/
theorem holds_expectProcess {P : Program.Assertion World Entry} (sup : Supervisor) (index : ℕ)
    (habsent : ∀ w t, w.supervisor.processes[index]? = none → P w t → L.raised .panic w t) :
    L.Holds (fun w t => sup = w.supervisor ∧ P w t)
      (Program.ofExcept (expect sup.processes[index]?) : Act ManagedProcess)
      (fun process w t => sup = w.supervisor ∧
        w.supervisor.processes[index]? = some process ∧ P w t) := by
  refine L.ofExcept _ (fun process hp w t h => ?_) fun e he w t h => ?_
  · exact ⟨h.1, h.1 ▸ (expect_eq_ok _ _).mp hp, h.2⟩
  · cases hprocess : sup.processes[index]? with
    | some process =>
      rw [hprocess] at he
      cases he
    | none =>
      rw [hprocess] at he
      cases he
      exact habsent w t (h.1 ▸ hprocess) h.2

/-- What `wait_for_service` says when the time is over. -/
def unreadyText (name : Bytes) (timeout : ℕ) : Bytes :=
  lit "readiness probe timed out for " ++ name ++ lit " after " ++
    decimal (timeout / millisecond) ++ lit "ms"

/-- The obligations of `wait_for_service`. `K` holds of the process that was not ready, until the
clock is read. -/
structure ServiceGate (L : Program.Logic World Turn Entry (Failure RuntimeError))
    (index timeout : ℕ) (I D : ℕ → Program.Assertion World Entry)
    (K : ℕ → ManagedProcess → Program.Assertion World Entry)
    (Q : WaitOutcome → Program.Assertion World Entry) : Prop where
  steady : ∀ now₀, SteadyIn L (I now₀)
  drive : ∀ now₀ wait, L.Holds (I now₀) (drive wait)
    (Unless (fun signal => Q (.signal signal)) (D now₀))
  absent : ∀ now₀ w t, w.supervisor.processes[index]? = none → D now₀ w t → L.raised .panic w t
  failed : ∀ now₀ reason w t, w.supervisor.startupFailure = some reason → D now₀ w t →
    Q (.failed reason) w t
  ready : ∀ now₀ process w t, w.supervisor.startupFailure = none →
    w.supervisor.processes[index]? = some process →
    process.probe.any (fun probe => probe.health = .ready) = true → D now₀ w t →
      Program.Leads L.step (Q .completed) w t w (⟨.probePassed index, w⟩ :: t)
  looking : ∀ now₀ process w t, w.supervisor.startupFailure = none →
    w.supervisor.processes[index]? = some process →
    ¬process.probe.any (fun probe => probe.health = .ready) = true → D now₀ w t →
      K now₀ process w t
  looks : ∀ now₀ process, SteadyIn L (K now₀ process)
  late : ∀ now₀ process w t, now₀ + timeout ≤ w.kernel.clock → K now₀ process w t →
    Q (.failed (unreadyText process.name timeout)) w t
  again : ∀ now₀ process w t, K now₀ process w t → I now₀ w t

theorem holds_waitForService {index timeout : ℕ}
    {K : ℕ → ManagedProcess → Program.Assertion World Entry} (hP : SteadyIn L P)
    (hentered : ∀ w t, P w t → I w.kernel.clock w t) (h : ServiceGate L index timeout I D K Q) :
    L.Holds P (waitForService index timeout) Q := by
  refine holds_waiting timeout _ hP hentered h.steady h.drive fun now₀ => ?_
  refine L.bind holds_supervisor fun sup => ?_
  cases hfailure : sup.startupFailure with
  | some reason =>
    refine L.pure _ ?_
    rintro w t ⟨rfl, hd⟩
    exact h.failed now₀ reason w t hfailure hd
  | none =>
    dsimp only
    refine L.bind (holds_expectProcess sup index (h.absent now₀)) fun process => ?_
    by_cases hready : process.probe.any (fun probe => probe.health = .ready) = true
    · simp only [if_pos hready]
      refine L.bind (L.record (R := Q .completed) _ ?_) fun _ => L.pure _ fun _ _ hq => hq
      rintro w t ⟨rfl, hp, hd⟩
      exact h.ready now₀ process w t hfailure hp hready hd
    · simp only [if_neg hready]
      refine L.bind (L.pre (holds_now (h.looks now₀ process)) ?_) fun now => ?_
      · rintro w t ⟨rfl, hp, hd⟩
        exact h.looking now₀ process w t hfailure hp hready hd
      by_cases hover : now₀ + timeout ≤ now
      · simp only [if_pos hover]
        refine L.pure _ ?_
        rintro w t ⟨rfl, hk⟩
        exact h.late now₀ process w t hover hk
      · simp only [if_neg hover]
        exact L.pure _ fun w t hk => h.again now₀ process w t hk.2

/-- What `wait_for_job` says when the time is over. -/
def overdueText (name : Bytes) (timeout : ℕ) : Bytes :=
  lit "run-to-completion process " ++ name ++ lit " timed out after " ++
    decimal (timeout / millisecond) ++ lit "ms"

/-- The obligations of `wait_for_job`. `J` holds of a job that was given up because the
initialization has failed, `O` of one that was given up because its time is over, `K` of the job
that runs, until the clock is read. -/
structure JobGate (L : Program.Logic World Turn Entry (Failure RuntimeError))
    (index timeout : ℕ) (I D : ℕ → Program.Assertion World Entry)
    (J : Bytes → ManagedProcess → Program.Assertion World Entry)
    (O : ManagedProcess → Program.Assertion World Entry)
    (K : ℕ → ManagedProcess → Program.Assertion World Entry)
    (Q : WaitOutcome → Program.Assertion World Entry) : Prop where
  steady : ∀ now₀, SteadyIn L (I now₀)
  drive : ∀ now₀ wait, L.Holds (I now₀) (drive wait)
    (Unless (fun signal => Q (.signal signal)) (D now₀))
  absent : ∀ now₀ w t, w.supervisor.processes[index]? = none → D now₀ w t → L.raised .panic w t
  failed : ∀ now₀ reason process w t, w.supervisor.startupFailure = some reason →
    w.supervisor.processes[index]? = some process → D now₀ w t →
      Program.Leads L.step (J reason process) w t w (⟨.jobFailed index, w⟩ :: t)
  clean : ∀ reason process, process.alive = true →
    L.Holds (J reason process) (scheduleCleanup process.pid) fun _ => Q (.failed reason)
  dead : ∀ reason process w t, process.alive = false → J reason process w t →
    Q (.failed reason) w t
  judged : ∀ now₀ process status reason w t, w.supervisor.startupFailure = none →
    w.supervisor.processes[index]? = some process → process.exitStatus = some status →
    jobVerdict process status = some reason → D now₀ w t →
      Program.Leads L.step (Q (.failed reason)) w t w (⟨.jobFailed index, w⟩ :: t)
  succeeded : ∀ now₀ process status w t, w.supervisor.startupFailure = none →
    w.supervisor.processes[index]? = some process → process.exitStatus = some status →
    jobVerdict process status = none → D now₀ w t →
      Program.Leads L.step (Q .completed) w t w (⟨.jobSucceeded index, w⟩ :: t)
  looking : ∀ now₀ process w t, w.supervisor.startupFailure = none →
    w.supervisor.processes[index]? = some process → process.exitStatus = none → D now₀ w t →
      K now₀ process w t
  looks : ∀ now₀ process, SteadyIn L (K now₀ process)
  late : ∀ now₀ process w t, now₀ + timeout ≤ w.kernel.clock → K now₀ process w t →
    Program.Leads L.step (O process) w t w (⟨.jobFailed index, w⟩ :: t)
  overdue : ∀ process, L.Holds (O process) (scheduleCleanup process.pid)
    fun _ => Q (.failed (overdueText process.name timeout))
  again : ∀ now₀ process w t, K now₀ process w t → I now₀ w t

theorem holds_waitForJob {index timeout : ℕ}
    {J : Bytes → ManagedProcess → Program.Assertion World Entry}
    {O : ManagedProcess → Program.Assertion World Entry}
    {K : ℕ → ManagedProcess → Program.Assertion World Entry} (hP : SteadyIn L P)
    (hentered : ∀ w t, P w t → I w.kernel.clock w t)
    (h : JobGate L index timeout I D J O K Q) : L.Holds P (waitForJob index timeout) Q := by
  refine holds_waiting timeout _ hP hentered h.steady h.drive fun now₀ => ?_
  refine L.bind holds_supervisor fun sup => ?_
  refine L.bind (holds_expectProcess sup index (h.absent now₀)) fun process => ?_
  cases hfailure : sup.startupFailure with
  | some reason =>
    dsimp only
    refine L.bind (L.record (R := J reason process) _ ?_) fun _ => ?_
    · rintro w t ⟨rfl, hp, hd⟩
      exact h.failed now₀ reason process w t hfailure hp hd
    have hclean : L.Holds (J reason process) (cleanUpAlive process)
        fun _ => Q (.failed reason) := by
      unfold cleanUpAlive
      split
      · rename_i halive
        exact h.clean reason process halive
      · rename_i hgone
        exact L.pure _ fun w t => h.dead reason process w t (by simpa using hgone)
    exact L.bind hclean fun _ => L.pure _ fun _ _ hq => hq
  | none =>
    dsimp only
    cases hstatus : process.exitStatus with
    | some status =>
      dsimp only
      cases hverdict : jobVerdict process status with
      | some reason =>
        dsimp only
        refine L.bind (L.record (R := Q (.failed reason)) _ ?_) fun _ => L.pure _ fun _ _ hq => hq
        rintro w t ⟨rfl, hp, hd⟩
        exact h.judged now₀ process status reason w t hfailure hp hstatus hverdict hd
      | none =>
        dsimp only
        refine L.bind (L.record (R := Q .completed) _ ?_) fun _ => L.pure _ fun _ _ hq => hq
        rintro w t ⟨rfl, hp, hd⟩
        exact h.succeeded now₀ process status w t hfailure hp hstatus hverdict hd
    | none =>
      dsimp only
      refine L.bind (L.pre (holds_now (h.looks now₀ process)) ?_) fun now => ?_
      · rintro w t ⟨rfl, hp, hd⟩
        exact h.looking now₀ process w t hfailure hp hstatus hd
      by_cases hover : now₀ + timeout ≤ now
      · simp only [if_pos hover]
        refine L.bind (L.record (R := O process) _ ?_) fun _ => ?_
        · rintro w t ⟨rfl, hk⟩
          exact h.late now₀ process w t hover hk
        · exact L.bind (h.overdue process) fun _ => L.pure _ fun _ _ hq => hq
      · simp only [if_neg hover]
        exact L.pure _ fun w t hk => h.again now₀ process w t hk.2

theorem holds_passGate (process : LaunchProcess) (index : ℕ)
    (hservice : ∀ probe, process.kind = .service → process.readinessProbe = some probe →
      L.Holds P (waitForService index (probe.startupTimeoutMs.toNat * millisecond)) Q)
    (hungated : process.kind = .service → process.readinessProbe = none → ∀ w t, P w t →
      Q .completed w t)
    (hjob : ∀ timeout, process.kind = .runToCompletion →
      process.completionTimeoutMs = some timeout →
        L.Holds P (waitForJob index (timeout.toNat * millisecond)) Q)
    (huntimed : process.kind = .runToCompletion → process.completionTimeoutMs = none →
      ∀ w t, P w t → L.raised .panic w t) : L.Holds P (passGate process index) Q := by
  unfold passGate
  cases hkind : process.kind with
  | service =>
    cases hprobe : process.readinessProbe with
    | some probe => exact hservice probe hkind hprobe
    | none => exact L.pure _ (hungated hkind hprobe)
  | runToCompletion =>
    refine L.bind (L.ofExcept (Q := fun timeout w t =>
      process.completionTimeoutMs = some timeout ∧ P w t) _ (fun timeout he w t h =>
        ⟨(expect_eq_ok _ _).mp he, h⟩) fun e he => ?_) fun timeout => L.fact (hjob timeout hkind)
    cases htimeout : process.completionTimeoutMs with
    | some timeout =>
      rw [htimeout] at he
      cases he
    | none =>
      rw [htimeout] at he
      cases he
      exact huntimed hkind htimeout

end Waiting

/-! ### The end of the initialization -/

/-- `F` holds once the failure is on record, `U` once the initialization is marked as incomplete,
`R` once the flag was refreshed. -/
theorem holds_failStartup {F U : Program.Assertion World Entry} (reason : Bytes)
    (hfailed : ∀ w t, P w t → Program.Leads L.step F w t (w.withFailure reason)
      (⟨.initializationFailed reason, w.withFailure reason⟩ :: t))
    (huncompleted : ∀ w t, F w t → Program.Leads L.step U w t
      { w with supervisor := { w.supervisor with initializationComplete := false } } t)
    (hupdate : ∀ w t, U w t → Program.Leads L.step R w t w.refreshed t)
    (hfinished : ∀ w t, R w t →
      Program.Leads L.step Q w t w (⟨.finished .failStartup, w⟩ :: t)) :
    L.Holds P (failStartup reason) fun _ => Q := by
  refine L.updateBind (R := F) _ _ _ hfailed ?_
  refine L.bind (holds_modifySupervisor _ huncompleted) fun _ => ?_
  refine L.bind (holds_modifySupervisor _ hupdate) fun _ => ?_
  exact L.record _ hfinished

/-- `F` holds once the completion is on record, if there is one, `R` once the flag was refreshed. -/
theorem holds_finishInitialization {F : Program.Assertion World Entry}
    (hcompleted : ∀ w t, w.supervisor.startupFailure = none → P w t →
      Program.Leads L.step F w t w.withCompletion (⟨.initializationCompleted, w.withCompletion⟩ :: t))
    (hfailed : ∀ w t, w.supervisor.startupFailure ≠ none → P w t → F w t)
    (hupdate : ∀ w t, F w t → Program.Leads L.step R w t w.refreshed t)
    (hfinished : ∀ w t, R w t →
      Program.Leads L.step Q w t w (⟨.finished .initialization, w⟩ :: t)) :
    L.Holds P finishInitialization fun _ => Q := by
  have hmark : L.Holds P markComplete fun _ => F := by
    refine L.bind holds_supervisor fun sup => ?_
    by_cases hnone : sup.startupFailure.isNone = true
    · simp only [if_pos hnone]
      refine L.update _ _ ?_
      rintro w t ⟨rfl, h⟩
      exact hcompleted w t (Option.isNone_iff_eq_none.mp hnone) h
    · simp only [if_neg hnone]
      refine L.pure _ ?_
      rintro w t ⟨rfl, h⟩
      exact hfailed w t (mt Option.isNone_iff_eq_none.mpr hnone) h
  refine L.bind hmark fun _ => ?_
  exact L.bind (holds_modifySupervisor _ hupdate) fun _ => L.record _ hfinished

/-! ### The whole run -/

/-- The obligations of a run that launches `declarations`. `I k` holds before the round of
declaration `k`, `A k` before its gate, `F` when the initialization is to be given up, `V` once it
is, `M` before its end, `C` in supervision; `S` once a signal was seen, and `X` of the exit code. -/
structure Outline (L : Program.Logic World Turn Entry (Failure RuntimeError)) (sandrun : Bytes)
    (declarations : List LaunchProcess) (I A : ℕ → Program.Assertion World Entry)
    (F : Bytes → Program.Assertion World Entry) (V M C : Program.Assertion World Entry)
    (S X : ℕ → Program.Assertion World Entry) : Prop where
  begin : ∀ k, L.Holds (I k) (drive 0) (Unless S (I k))
  faulty : ∀ k reason w t, w.supervisor.startupFailure = some reason → I k w t → F reason w t
  spawn : ∀ k process, declarations[k]? = some process →
    L.Holds (fun w t => w.supervisor.startupFailure = none ∧ I k w t) (spawn process sandrun)
      (Returned (fun error => F (lit "failed to start " ++ process.name ++ lit ": " ++ error))
        fun index w t => index = k ∧ A k w t)
  gate : ∀ k process, declarations[k]? = some process →
    L.Holds (A k) (passGate process k) (GateEnds (I (k + 1)) F S)
  giveUp : ∀ reason, L.Holds (F reason) (failStartup reason) fun _ => V
  last : L.Holds (fun w t => w.supervisor.startupFailure = none ∧
    (I declarations.length w t ∨ V w t)) (drive 0) (Unless S M)
  failed : ∀ w t, w.supervisor.startupFailure ≠ none → I declarations.length w t ∨ V w t → M w t
  finish : L.Holds M finishInitialization fun _ => C
  supervise : L.Holds C (drive pollInterval) (Unless S C)
  shutdown : ∀ signal, L.Holds (S signal) (shutdown signal) X
  stop : ∀ w t, C w t → L.stop w t

namespace Outline
variable {sandrun : Bytes} {declarations : List LaunchProcess}
  {I A : ℕ → Program.Assertion World Entry} {F : Bytes → Program.Assertion World Entry}
  {V M C : Program.Assertion World Entry} {S X : ℕ → Program.Assertion World Entry}
  (h : Outline L sandrun declarations I A F V M C S X)
include h

theorem holds_launchRound (k : ℕ) (process : LaunchProcess)
    (hturn : declarations[k]? = some process) :
    L.Holds (I k) (launchRound sandrun process) (RoundEnds (I (k + 1)) V X) := by
  have hleave : ∀ reason, L.Holds (F reason) (do
      Campd.failStartup reason
      pure LaunchRound.leave) (RoundEnds (I (k + 1)) V X) := fun reason =>
    L.bind (h.giveUp reason) fun _ => L.pure _ fun _ _ hv => hv
  have hexit : ∀ signal, L.Holds (S signal) (do
      let code ← Campd.shutdown signal
      pure (LaunchRound.exit code)) (RoundEnds (I (k + 1)) V X) := fun signal =>
    L.bind (h.shutdown signal) fun _ => L.pure _ fun _ _ hx => hx
  refine L.bind (h.begin k) fun signal => ?_
  cases signal with
  | some signal => exact hexit signal
  | none =>
    refine L.bind holds_supervisor fun sup => ?_
    cases hfailure : sup.startupFailure with
    | some reason =>
      refine L.pre (hleave reason) ?_
      rintro w t ⟨rfl, hi⟩
      exact h.faulty k reason w t hfailure hi
    | none =>
      refine L.bind (L.pre (h.spawn k process hturn) ?_) fun result => ?_
      · rintro w t ⟨rfl, hi⟩
        exact ⟨hfailure, hi⟩
      cases result with
      | error error => exact hleave _
      | ok index =>
        refine L.fact fun hindex => ?_
        subst hindex
        refine L.bind (h.gate index process hturn) fun outcome => ?_
        cases outcome with
        | completed => exact L.pure _ fun _ _ hi => hi
        | failed reason => exact hleave reason
        | signal signal => exact hexit signal

theorem holds_launchAll : L.Holds (I 0) (launchAll sandrun declarations)
    (Unless X fun w t => I declarations.length w t ∨ V w t) := by
  have hfrom : ∀ rest k, declarations.drop k = rest → k ≤ declarations.length →
      L.Holds (I k) (launchAll sandrun rest)
        (Unless X fun w t => I declarations.length w t ∨ V w t) := by
    intro rest
    induction rest with
    | nil =>
      intro k hdrop hk
      have hlength : k = declarations.length := Nat.le_antisymm hk (List.drop_eq_nil_iff.mp hdrop)
      subst hlength
      exact L.pure _ fun w t hi => Or.inl hi
    | cons process rest ih =>
      intro k hdrop hk
      have hturn : declarations[k]? = some process := by
        rw [← List.head?_drop, hdrop, List.head?_cons]
      have hlt : k < declarations.length := (List.getElem?_eq_some_iff.mp hturn).1
      have hrest : declarations.drop (k + 1) = rest := by
        rw [← List.drop_drop, hdrop, List.drop_one, List.tail_cons]
      refine L.bind (h.holds_launchRound k process hturn) fun round => ?_
      cases round with
      | next => exact ih (k + 1) hrest hlt
      | leave => exact L.pure _ fun w t hv => Or.inr hv
      | exit code => exact L.pure _ fun _ _ hx => hx
  exact hfrom declarations 0 rfl (Nat.zero_le _)

theorem holds_completeInitialization :
    L.Holds (fun w t => I declarations.length w t ∨ V w t) completeInitialization (Unless X C) := by
  have hfinish : L.Holds M (do
      finishInitialization
      pure (none : Option ℕ)) (Unless X C) :=
    L.bind h.finish fun _ => L.pure _ fun _ _ hc => hc
  refine L.bind holds_supervisor fun sup => ?_
  by_cases hnone : sup.startupFailure.isNone = true
  · simp only [if_pos hnone]
    refine L.bind (L.pre h.last ?_) fun signal => ?_
    · rintro w t ⟨rfl, hn⟩
      exact ⟨Option.isNone_iff_eq_none.mp hnone, hn⟩
    cases signal with
    | some signal => exact L.bind (h.shutdown signal) fun _ => L.pure _ fun _ _ hx => hx
    | none => exact hfinish
  · simp only [if_neg hnone]
    refine L.pre hfinish ?_
    rintro w t ⟨rfl, hn⟩
    exact h.failed w t (mt Option.isNone_iff_eq_none.mpr hnone) hn

theorem holds_supervise : L.Holds C Campd.supervise X := by
  refine L.loop (I := fun _ => C) _ () (fun _ => ?_) fun _ => h.stop
  refine L.bind h.supervise fun signal => ?_
  cases signal with
  | some signal => exact L.bind (h.shutdown signal) fun _ => L.pure _ fun _ _ hx => hx
  | none => exact L.pure _ fun _ _ hc => hc

end Outline

/-- The first statement of a run makes no entry, and no signal is pending behind it. -/
theorem holds_run (host : Host) (spec : Spec) {I A : ℕ → Program.Assertion World Entry}
    {F : Bytes → Program.Assertion World Entry} {V M C : Program.Assertion World Entry}
    {S X : ℕ → Program.Assertion World Entry}
    (hraised : ∀ e, host.contract.mapError Failure.error = .error e ∨
      host.sandrun.mapError Failure.error = .error e ∨ flatten host.passwd spec = .error e →
        ∀ w t, P w t → L.raised e w t)
    (hstart : ∀ w t, P w t → I 0 w t)
    (h : ∀ sandrun declarations, flatten host.passwd spec = .ok declarations →
      Outline L sandrun declarations I A F V M C S X) :
    ∃ body, run host spec = (Program.modify (fun world => { world with
      kernel := { world.kernel with receivedSignal := 0 } }) >>= fun _ => body) ∧
      L.Holds P body X := by
  refine ⟨_, rfl, ?_⟩
  refine L.bind (L.ofExcept (Q := fun _ => P) _ (fun _ _ _ _ hp => hp)
    fun e he => hraised e (Or.inl he)) fun _ => ?_
  refine L.bind (L.ofExcept (Q := fun _ => P) _ (fun _ _ _ _ hp => hp)
    fun e he => hraised e (Or.inr (Or.inl he))) fun sandrun => ?_
  refine L.bind (L.ofExcept (Q := fun declarations w t =>
    flatten host.passwd spec = .ok declarations ∧ P w t) _ (fun _ he _ _ hp => ⟨he, hp⟩)
    fun e he => hraised e (Or.inr (Or.inr he))) fun declarations => L.fact fun hflatten => ?_
  have houtline := h sandrun declarations hflatten
  refine L.bind (L.pre houtline.holds_launchAll hstart) fun code => ?_
  cases code with
  | some code => exact L.pure _ fun _ _ hx => hx
  | none =>
    refine L.bind houtline.holds_completeInitialization fun code => ?_
    cases code with
    | some code => exact L.pure _ fun _ _ hx => hx
    | none => exact houtline.holds_supervise

end Sandcamp.Campd
