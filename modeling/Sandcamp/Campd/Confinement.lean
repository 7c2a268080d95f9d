import Sandcamp.Campd.Course

/-!
# Launches and gates get onward

`spawn` and the gates get around by onward steps, and raise nothing but the failure of `waitpid`;
what a gate gives as its reason is excused.
-/

namespace Sandcamp.Campd
open Foundations

variable {launch : List CommonProcess} {P : Program.Assertion World Entry}
  {X : Failure RuntimeError → Prop} {α β : Type} {w w' : World} {t t' : Trace} {k : ℕ}
  {process : LaunchProcess} {step : Program.Place World Entry → Program.Place World Entry → Prop}

/-! ### What onward stretches keep -/

/-- The registered processes are the first declarations, each with the entry of its start. -/
structure Logged (launch : List CommonProcess) (w : World) (t : Trace) : Prop where
  clocked : ∀ entry ∈ t, entry.world.kernel.clock ≤ w.kernel.clock
  named : w.supervisor.processes.map (·.name) =
    (launch.take w.supervisor.processes.length).map (·.name)
  started : ∀ i < w.supervisor.processes.length, ∃ pid, Action.started i pid ∈ acts t
  unfailed : ∀ reason, Action.initializationFailed reason ∉ acts t

theorem logged_world (h : Logged launch w t) (hclock : w.kernel.clock ≤ w'.kernel.clock)
    (hnames : w'.supervisor.processes.map (·.name) = w.supervisor.processes.map (·.name)) :
    Logged launch w' t := by
  have hlength : w'.supervisor.processes.length = w.supervisor.processes.length := by
    simpa using congrArg List.length hnames
  exact
    { clocked := fun entry hm => (h.clocked entry hm).trans hclock
      named := by rw [hnames, hlength, h.named]
      started := fun i hi => h.started i (hlength ▸ hi)
      unfailed := h.unfailed }

theorem logged_entry (action : Action) (hother : ∀ reason, action ≠ .initializationFailed reason)
    (h : Logged launch w t) : Logged launch w (⟨action, w⟩ :: t) where
  clocked := fun entry hm => by
    rcases List.mem_cons.mp hm with rfl | hm
    · exact Nat.le_refl _
    · exact h.clocked entry hm
  named := h.named
  started := fun i hi => (h.started i hi).imp fun pid hm => mem_acts_of_mem [_] hm
  unfailed := fun reason hm => h.unfailed reason (mem_acts_of_ne (hother reason).symm hm)

theorem logged_hop (hhop : Hop (w, t) (w', t')) (h : Logged launch w t) : Logged launch w' t' := by
  cases hhop with
  | kernel w t kernel hshift => exact logged_world h hshift.clock rfl
  | told w t action hincidental hhonest =>
    refine logged_entry action (fun reason he => ?_) h
    rw [he] at hincidental
    cases hincidental

/-- A process is replaced by one that looks the same. -/
theorem map_set {β : Type} (look : ManagedProcess → β) {processes : List ManagedProcess} {i : ℕ}
    {old new : ManagedProcess} (hold : processes[i]? = some old) (hsame : look new = look old) :
    (processes.set i new).map look = processes.map look := by
  obtain ⟨hlt, rfl⟩ := List.getElem?_eq_some_iff.mp hold
  rw [List.map_set, hsame, ← List.getElem_map look, List.set_getElem_self]
  rwa [List.length_map]

theorem logged_registered (declaration : CommonProcess) (group : GroupId)
    (hturn : launch[w.supervisor.processes.length]? = some declaration) (h : Logged launch w t) :
    Logged launch (w.withProcess declaration group)
      (⟨.started w.supervisor.processes.length group.number, w.withProcess declaration group⟩ ::
        t) where
  clocked := fun entry hm => by
    rcases List.mem_cons.mp hm with rfl | hm
    · exact Nat.le_refl _
    · exact h.clocked entry hm
  named := by
    have hlength : (w.withProcess declaration group).supervisor.processes.length =
        w.supervisor.processes.length + 1 := List.length_append
    rw [hlength, List.take_add_one, hturn, List.map_append, ← h.named]
    exact List.map_append
  started := fun i hi => by
    have hlength : (w.withProcess declaration group).supervisor.processes.length =
        w.supervisor.processes.length + 1 := List.length_append
    rw [hlength] at hi
    rcases Nat.lt_succ_iff_lt_or_eq.mp hi with hlt | rfl
    · exact (h.started i hlt).imp fun pid hm => mem_acts_of_mem [_] hm
    · exact ⟨group.number, (mem_acts_cons _ _ _).mpr (Or.inl rfl)⟩
  unfailed := fun reason hm => h.unfailed reason (mem_acts_of_ne (by simp) hm)

theorem logged_onward (honward : Onward launch (w, t) (w', t')) (h : Logged launch w t) :
    Logged launch w' t' := by
  cases honward with
  | tidying htidying =>
    cases htidying with
    | hop hhop => exact logged_hop hhop h
    | cleanups w t cleanups => exact logged_world h (Nat.le_refl _) rfl
  | refreshed w t => exact logged_world h (Nat.le_refl _) rfl
  | exited w t index status residual process hprocess halive =>
    refine logged_entry (w := { w with supervisor := _ }) _ (fun reason he => by cases he) ?_
    exact logged_world h (Nat.le_refl _) (map_set _ hprocess rfl)
  | probed w t index process state success hprocess hprobe =>
    refine logged_entry (w := { w with supervisor := _ }) _ (fun reason he => by cases he) ?_
    exact logged_world h (Nat.le_refl _) (map_set _ hprocess rfl)
  | called w t process => exact logged_entry _ (fun reason he => by cases he) h
  | registered w t declaration group hturn => exact logged_registered declaration group hturn h

theorem named_at {i : ℕ} {managed : ManagedProcess} {declaration : CommonProcess}
    (h : Logged launch w t) (hp : w.supervisor.processes[i]? = some managed)
    (hd : launch[i]? = some declaration) : managed.name = declaration.name := by
  have hlt : i < w.supervisor.processes.length := (List.getElem?_eq_some_iff.mp hp).1
  have hnames := congrArg (·[i]?) h.named
  simp only [List.getElem?_map, hp, Option.map_some, List.getElem?_take, hlt, if_true, hd] at hnames
  exact Option.some.inj hnames

/-! ### `spawn` -/

/-- What launching the process takes for granted. -/
structure Launches (sandrun : Bytes) (process : LaunchProcess) : Prop where
  command : ∃ command,
    (buildCommand process sandrun : Except (Failure RuntimeError) Command) = .ok command
  timeout : process.kind = .runToCompletion → ∃ timeout, process.completionTimeoutMs = some timeout

/-- `spawn` was called for declaration `k`, and nothing has come of it. -/
def Called (k : ℕ) : Program.Assertion World Entry := fun w t =>
  w.supervisor.startupFailure = none ∧ w.supervisor.processes.length = k ∧ launched t = k + 1

theorem called_hop (hhop : Hop (w, t) (w', t')) (h : Called k w t) : Called k w' t' := by
  cases hhop with
  | kernel => exact h
  | told w t action hincidental hhonest =>
    exact ⟨h.1, h.2.1, (launched_told hincidental).trans h.2.2⟩

theorem onward_told (action : Action) (hincidental : action.incidental = true)
    (hhonest : action.Honest w.kernel) (h : P w (⟨action, w⟩ :: t)) :
    Program.Leads (Onward launch) P w t w (⟨action, w⟩ :: t) :=
  ⟨.tidying (.hop (.told w t action hincidental hhonest)), h⟩

theorem guided_spawn (sandrun : Bytes) (hturn : launch[k]? = some process.toCommonProcess)
    (hlaunches : Launches sandrun process) :
    Program.Guided (fun w t => w.supervisor.startupFailure = none ∧
        w.supervisor.processes.length = k ∧ launched t = k) (Onward launch) X
      (Returned (fun _ => Called k) fun _ => Program.anywhere) (spawn process sandrun) := by
  have hidle : IdleIn (.guided (Onward launch) X) (Called k) :=
    idle_hops (fun _ _ h => .tidying (.hop h)) fun _ _ _ _ => called_hop
  refine Program.Logic.toGuided (idle_spawn hidle process sandrun (fun w t h => ?_)
    (fun e he _ _ _ => ?_) (fun _ w t h => onward_told _ rfl trivial
      (called_hop (.told w t _ rfl trivial) h)) fun group => ?_)
  · refine ⟨.called w t process h.1, h.1, h.2.1, ?_⟩
    rw [launched_cons_spawning, h.2.2]
  · obtain ⟨command, hcommand⟩ := hlaunches.command
    rw [hcommand] at he
    cases he
  · refine holds_register process group (S := fun _ => Program.anywhere)
      (U := fun _ => Program.anywhere) (fun w t h => ⟨?_, trivial⟩)
      (fun _ w t _ => ⟨.refreshed w t, trivial⟩) fun _ w t _ => onward_told _ rfl trivial trivial
    exact .registered w t process.toCommonProcess group (by rw [h.2.1, hturn])

/-! ### Gates -/

structure Underway (launch : List CommonProcess) (calls registered passed : ℕ) (w : World)
    (t : Trace) : Prop extends Stage launch calls registered passed w t, Logged launch w t

variable {calls registered passed : ℕ}

theorem underway_steady : Steady (Underway launch calls registered passed) :=
  fun w t events h =>
    { toStage := stage_stable.steady w t events h.toStage
      toLogged := logged_world h.toLogged (Kernel.clock_applyAll w.kernel events) rfl }

theorem triple_drive_underway (wait : ℕ) :
    Program.Triple (Underway launch calls registered passed) (drive wait)
      (fun signal w t => signal = none → Underway launch calls registered passed w t)
      Program.anywhere := by
  have hlogged : Program.Triple (Logged launch) (drive wait) (fun _ => Logged launch)
      (Logged launch) :=
    (confined_drive wait).keeps fun _ _ _ _ honward => logged_onward honward
  have hstage : Program.Triple (Stage launch calls registered passed) (drive wait) _ _ :=
    triple_drive_stage wait
  have hboth := Program.triple_and hstage hlogged
  refine Program.triple_conseq _ (Program.triple_stop hboth fun _ _ _ => trivial)
    (fun w t h => ⟨h.toStage, h.toLogged⟩) ?_
  rintro signal w t ⟨hstage, hlogged⟩ rfl
  exact ⟨hstage, hlogged⟩

theorem onward_grows (honward : Onward launch (w, t) (w', t')) : ∃ new, t' = new ++ t := by
  cases honward with
  | tidying htidying =>
    cases htidying with
    | hop hhop =>
      cases hhop with
      | kernel => exact ⟨[], rfl⟩
      | told => exact ⟨[_], rfl⟩
    | cleanups => exact ⟨[], rfl⟩
  | refreshed => exact ⟨[], rfl⟩
  | exited => exact ⟨[_], rfl⟩
  | probed => exact ⟨[_], rfl⟩
  | called => exact ⟨[_], rfl⟩
  | registered => exact ⟨[_], rfl⟩

/-- Process `k` was started by `clock`. -/
def StartedBy (k clock : ℕ) (t : Trace) : Prop :=
  ∃ entry ∈ t, (∃ pid, entry.action = .started k pid) ∧ entry.world.kernel.clock ≤ clock

theorem startedBy_onward {clock : ℕ} (honward : Onward launch (w, t) (w', t'))
    (h : StartedBy k clock t) : StartedBy k clock t' := by
  obtain ⟨new, rfl⟩ := onward_grows honward
  obtain ⟨entry, hm, hentry⟩ := h
  exact ⟨entry, List.mem_append_right new hm, hentry⟩

/-- Between the rounds of the gate of process `k`, which was entered at `now₀`. -/
def Waiting (launch : List CommonProcess) (k now₀ : ℕ) : Program.Assertion World Entry :=
  fun w t => Underway launch (k + 1) (k + 1) k w t ∧ StartedBy k now₀ t

theorem waiting_steady (now₀ : ℕ) : Steady (Waiting launch k now₀) :=
  fun w t events h => ⟨underway_steady w t events h.1, h.2⟩

theorem waiting_entered (h : Underway launch (k + 1) (k + 1) k w t) :
    Waiting launch k w.kernel.clock w t := by
  have hlt : k < w.supervisor.processes.length := by
    rw [h.registered]
    exact Nat.lt_succ_self k
  obtain ⟨pid, hm⟩ := h.started k hlt
  obtain ⟨entry, he, haction⟩ := List.mem_map.mp hm
  exact ⟨h, entry, he, ⟨pid, haction⟩, h.clocked entry he⟩

/-- What a gate gives as its reason is excused. -/
def Reasoned (launch : List CommonProcess) : WaitOutcome → Program.Assertion World Entry
  | .failed reason => Excused launch reason
  | _ => Program.anywhere

theorem guided_drive_waiting (now₀ wait : ℕ) :
    Program.Guided (Waiting launch k now₀) (Onward launch) WaitFailed
      (Unless (fun _ => Program.anywhere) (Waiting launch k now₀)) (drive wait) := by
  have hconfined : Program.Confined Program.anywhere (Onward launch) WaitFailed (drive wait) :=
    confined_drive wait
  have hstarted : Program.Triple (fun _ t => StartedBy k now₀ t) (drive wait)
      (fun _ _ t => StartedBy k now₀ t) (fun _ t => StartedBy k now₀ t) :=
    hconfined.keeps fun _ _ _ _ honward => startedBy_onward honward
  have hunderway : Program.Triple (Underway launch (k + 1) (k + 1) k) (drive wait) _ _ :=
    triple_drive_underway wait
  have hboth := Program.triple_and hunderway hstarted
  refine ⟨confined_drive wait, Program.triple_post _ (Program.triple_stop hboth
    fun _ _ _ => trivial) fun signal w t h => ?_⟩
  cases signal with
  | none => exact ⟨h.1 rfl, h.2⟩
  | some signal => trivial

variable {declaration : CommonProcess}

theorem outlasted_of_waiting {now₀ timeout : ℕ} (h : Waiting launch k now₀ w t)
    (hover : now₀ + timeout ≤ w.kernel.clock) : Outlasted k timeout w.kernel.clock t := by
  obtain ⟨entry, hm, hstarted, hclock⟩ := h.2
  exact ⟨entry, hm, hstarted, by omega⟩

theorem present_of_waiting {now₀ : ℕ} (h : Waiting launch k now₀ w t) :
    w.supervisor.processes[k]? ≠ none := by
  have hlt : k < w.supervisor.processes.length := by
    rw [h.1.registered]
    exact Nat.lt_succ_self k
  simp [List.getElem?_eq_getElem hlt]

/-- What a gate has read of its process, before it looks at the clock. -/
def Looking (launch : List CommonProcess) (k now₀ : ℕ) (managed : ManagedProcess) :
    Program.Assertion World Entry := fun w t =>
  w.supervisor.startupFailure = none ∧ w.supervisor.processes[k]? = some managed ∧
    Waiting launch k now₀ w t

theorem looking_steady {now₀ : ℕ} {managed : ManagedProcess} :
    Steady (Looking launch k now₀ managed) :=
  fun w t events h => ⟨h.1, h.2.1, waiting_steady now₀ w t events h.2.2⟩

theorem excused_unready {now₀ : ℕ} {managed : ManagedProcess} {probe : Probe}
    (hdeclared : launch[k]? = some declaration) (hkind : declaration.kind = .service)
    (hprobe : declaration.readinessProbe = some probe)
    (hready : ¬managed.probe.any (fun probe => probe.health = .ready) = true)
    (hover : now₀ + probe.startupTimeoutMs.toNat * millisecond ≤ w.kernel.clock)
    (h : Looking launch k now₀ managed w t) :
    Excused launch (unreadyText managed.name (probe.startupTimeoutMs.toNat * millisecond)) w t := by
  obtain ⟨hnone, hmanaged, hwaiting⟩ := h
  rw [unreadyText, Nat.mul_div_cancel _ (by decide), named_at hwaiting.1.toLogged hmanaged hdeclared]
  refine Or.inr ⟨hnone, .unready k declaration probe hwaiting.1.registered hdeclared hkind hprobe
    ?_ (outlasted_of_waiting hwaiting hover)⟩
  rintro ⟨other, state, hother, hstate, hhealth⟩
  obtain rfl : managed = other := Option.some.inj (hmanaged.symm.trans hother)
  refine hready ?_
  rw [hstate, Option.any_some, hhealth]
  rfl

theorem onward_steady (h : Steady P) : SteadyIn (.guided (Onward launch) X) P where
  turn := fun w t events hp =>
    ⟨.tidying (.hop (.kernel w t _ (.events events))), h w t events hp⟩
  stop := fun _ _ _ => trivial

theorem guided_waitForService {probe : Probe} (hdeclared : launch[k]? = some declaration)
    (hkind : declaration.kind = .service) (hprobe : declaration.readinessProbe = some probe) :
    Program.Guided (Underway launch (k + 1) (k + 1) k) (Onward launch) WaitFailed
      (Reasoned launch) (waitForService k (probe.startupTimeoutMs.toNat * millisecond)) :=
  Program.Logic.toGuided (holds_waitForService (I := Waiting launch k) (D := Waiting launch k)
    (K := fun now₀ managed w t =>
      ¬managed.probe.any (fun probe => probe.health = .ready) = true ∧
        Looking launch k now₀ managed w t)
    (onward_steady underway_steady) (fun _ _ => waiting_entered)
    { steady := fun now₀ => onward_steady (waiting_steady now₀)
      drive := fun now₀ wait => (guided_drive_waiting now₀ wait).conseq (fun _ _ h => h)
        fun signal _ _ h => by cases signal <;> exact h
      absent := fun _ _ _ habsent h => absurd habsent (present_of_waiting h)
      failed := fun _ _ _ _ hfailure _ => Or.inl hfailure
      ready := fun _ _ _ _ _ _ _ _ => onward_told _ rfl trivial trivial
      looking := fun _ _ _ _ hnone hmanaged hready h => ⟨hready, hnone, hmanaged, h⟩
      looks := fun _ _ => onward_steady fun w t events h =>
        ⟨h.1, looking_steady w t events h.2⟩
      late := fun _ _ _ _ hover h => excused_unready hdeclared hkind hprobe h.1 hover h.2
      again := fun _ _ _ _ h => h.2.2.2 })

theorem excused_verdict {now₀ status : ℕ} {managed : ManagedProcess} {reason : Bytes}
    (hdeclared : launch[k]? = some declaration) (hkind : declaration.kind = .runToCompletion)
    (hstatus : managed.exitStatus = some status) (hverdict : jobVerdict managed status = some reason)
    (h : Looking launch k now₀ managed w t) : Excused launch reason w t := by
  obtain ⟨hnone, hmanaged, hwaiting⟩ := h
  have hdead : managed.alive = false := by
    by_contra halive
    have hrunning := (hwaiting.1.inv.alive k managed hmanaged (by simpa using halive)).2.1
    rw [hstatus] at hrunning
    cases hrunning
  obtain ⟨other, hother, hexited⟩ := hwaiting.1.inv.reaped k managed hmanaged hdead
  obtain rfl : status = other := Option.some.inj (hstatus.symm.trans hother)
  have hname := named_at hwaiting.1.toLogged hmanaged hdeclared
  unfold jobVerdict at hverdict
  split at hverdict
  · rename_i hcode
    obtain rfl := Option.some.inj hverdict
    rw [hname]
    exact Or.inr ⟨hnone, .failed k declaration status _ hwaiting.1.registered hdeclared hkind
      hexited hcode⟩
  · rename_i hcode
    split at hverdict
    · rename_i hresidual
      obtain rfl := Option.some.inj hverdict
      rw [hresidual] at hexited
      rw [hname]
      exact Or.inr ⟨hnone, .descendants k declaration status hwaiting.1.registered hdeclared hkind
        hexited (not_not.mp hcode)⟩
    · cases hverdict

theorem excused_late {now₀ : ℕ} {managed : ManagedProcess} {timeout : UInt64}
    (hdeclared : launch[k]? = some declaration) (hkind : declaration.kind = .runToCompletion)
    (htimeout : declaration.completionTimeoutMs = some timeout)
    (hstatus : managed.exitStatus = none)
    (hover : now₀ + timeout.toNat * millisecond ≤ w.kernel.clock)
    (h : Looking launch k now₀ managed w t) :
    Excused launch (overdueText managed.name (timeout.toNat * millisecond)) w t := by
  obtain ⟨hnone, hmanaged, hwaiting⟩ := h
  have halive : managed.alive = true := by
    by_contra hdead
    obtain ⟨status, hsome, -⟩ := hwaiting.1.inv.reaped k managed hmanaged (by simpa using hdead)
    rw [hstatus] at hsome
    cases hsome
  rw [overdueText, Nat.mul_div_cancel _ (by decide),
    named_at hwaiting.1.toLogged hmanaged hdeclared]
  exact Or.inr ⟨hnone, .late k declaration timeout hwaiting.1.registered hdeclared hkind htimeout
    (hwaiting.1.inv.alive k managed hmanaged halive).1 (outlasted_of_waiting hwaiting hover)⟩

/-- Giving up on a job is tidying, so its reason stays excused. -/
theorem excused_scheduleCleanup (reason : Bytes) (group : ℕ) :
    (Program.Logic.guided (Onward launch) X).Holds (Excused launch reason) (scheduleCleanup group)
      fun _ => Excused launch reason :=
  tidy_scheduleCleanup (fun _ _ => .tidying) (fun _ _ _ _ => excused_tidying) group

theorem excused_told {reason : Bytes} (action : Action) (hincidental : action.incidental = true)
    (hhonest : action.Honest w.kernel) (h : Excused launch reason w t) :
    Program.Leads (Onward launch) (Excused launch reason) w t w (⟨action, w⟩ :: t) :=
  onward_told action hincidental hhonest
    (excused_tidying (.hop (.told w t action hincidental hhonest)) h)

theorem guided_waitForJob {timeout : UInt64} (hdeclared : launch[k]? = some declaration)
    (hkind : declaration.kind = .runToCompletion)
    (htimeout : declaration.completionTimeoutMs = some timeout) :
    Program.Guided (Underway launch (k + 1) (k + 1) k) (Onward launch) WaitFailed
      (Reasoned launch) (waitForJob k (timeout.toNat * millisecond)) :=
  Program.Logic.toGuided (holds_waitForJob (I := Waiting launch k) (D := Waiting launch k)
    (J := fun reason _ => Excused launch reason)
    (O := fun managed => Excused launch (overdueText managed.name (timeout.toNat * millisecond)))
    (K := fun now₀ managed w t => managed.exitStatus = none ∧ Looking launch k now₀ managed w t)
    (onward_steady underway_steady) (fun _ _ => waiting_entered)
    { steady := fun now₀ => onward_steady (waiting_steady now₀)
      drive := fun now₀ wait => (guided_drive_waiting now₀ wait).conseq (fun _ _ h => h)
        fun signal _ _ h => by cases signal <;> exact h
      absent := fun _ _ _ habsent h => absurd habsent (present_of_waiting h)
      failed := fun _ _ _ _ _ hfailure _ _ => excused_told _ rfl trivial (Or.inl hfailure)
      clean := fun reason _ _ => excused_scheduleCleanup reason _
      dead := fun _ _ _ _ _ h => h
      judged := fun _ _ _ _ _ _ hnone hmanaged hstatus hverdict h => excused_told _ rfl trivial
        (excused_verdict hdeclared hkind hstatus hverdict ⟨hnone, hmanaged, h⟩)
      succeeded := fun _ _ _ _ _ _ _ _ _ _ => onward_told _ rfl trivial trivial
      looking := fun _ _ _ _ hnone hmanaged hstatus h => ⟨hstatus, hnone, hmanaged, h⟩
      looks := fun _ _ => onward_steady fun w t events h =>
        ⟨h.1, looking_steady w t events h.2⟩
      late := fun _ _ _ _ hover h => excused_told _ rfl trivial
        (excused_late hdeclared hkind htimeout h.1 hover h.2)
      overdue := fun _ => excused_scheduleCleanup _ _
      again := fun _ _ _ _ h => h.2.2.2 })

theorem guided_passGate {sandrun : Bytes} (hturn : launch[k]? = some process.toCommonProcess)
    (hlaunches : Launches sandrun process) :
    Program.Guided (Underway launch (k + 1) (k + 1) k) (Onward launch) WaitFailed
      (Reasoned launch) (passGate process k) := by
  refine Program.Logic.toGuided (holds_passGate process k
    (fun probe hkind hprobe => guided_waitForService hturn hkind hprobe)
    (fun _ _ _ _ _ => trivial) (fun timeout hkind htimeout => guided_waitForJob hturn hkind htimeout)
    fun hkind huntimed => ?_)
  obtain ⟨timeout, htimeout⟩ := hlaunches.timeout hkind
  rw [huntimed] at htimeout
  cases htimeout

end Sandcamp.Campd
