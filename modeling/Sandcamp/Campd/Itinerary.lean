import Sandcamp.Campd.Confinement

/-!
# Whole runs, move by move

Launches, gates and `drive` are onward stretches; the statements of `run` that are not, are giving
up the initialization, completing it, and the shutdown. So a run gets around by moves, and raises
nothing but what the host refuses it and the failure of `waitpid`.
-/

namespace Sandcamp.Campd
open Foundations

variable {launch : List CommonProcess} {X X' : Failure RuntimeError → Prop} {w : World}
  {t : Trace} {k : ℕ} {process : LaunchProcess}

/-! ### The end of the initialization and the shutdown -/

theorem guided_shutdown (signal : ℕ) :
    Program.Guided (Observed launch signal) (Move launch) X (fun _ => Program.anywhere)
      (shutdown signal) where
  passes := fun r hr =>
    .single (.shutdown _ _ signal r.schedule (mem_of_observed hr) (running_of_observed hr))
  raises := fun r _ => (confined_shutdown (P := Program.anywhere) signal).raises r trivial
  triple := Program.triple_anywhere _

/-- The initialization can still fail. -/
structure Failable (launch : List CommonProcess) (reason : Bytes) (w : World) (t : Trace) :
    Prop extends Initializing launch w t where
  excused : Excused launch reason w t
  undecided : Undecided t

theorem running_cons {entry : Entry} (hother : ∀ signal, entry.action ≠ .shutdownBegan signal)
    (h : Running t) : Running (entry :: t) := fun signal hm =>
  h signal (mem_acts_of_ne (fun he => hother signal he.symm) hm)

theorem guided_failStartup (reason : Bytes) :
    Program.Guided (Failable launch reason) (Move launch) X (fun _ => FailedStartup launch)
      (failStartup reason) where
  toConfined := (Program.Logic.toGuided (holds_failStartup reason
    (F := fun w t => w.supervisor.initializationComplete = false ∧ Running t)
    (U := fun _ t => Running t) (R := fun _ t => Running t) (Q := Program.anywhere)
    (fun w t h => ⟨.failed w t reason h.excused h.undecided h.inv.running, h.early,
      running_cons (fun _ he => by cases he) h.inv.running⟩)
    (fun w t h => ⟨.uncompleted w t h.1 h.2, h.2⟩)
    (fun w t h => ⟨.onward (.refreshed w t) h, h⟩)
    fun w t h => ⟨.onward (.tidying (.hop (.told w t _ rfl trivial))) h, trivial⟩)).toConfined
  triple := Program.triple_conseq _ (Program.triple_stop (triple_failStartup reason)
    fun _ _ _ => trivial) (fun _ _ h => h.toInitializing) fun _ _ _ h => h

/-- The initialization has failed or can be completed. -/
structure Concludable (launch : List CommonProcess) (w : World) (t : Trace) : Prop where
  launched : Launched launch w t
  undecided : w.supervisor.startupFailure = none → Undecided t

/-- The initialization has failed or is complete. -/
def Concluded : Program.Assertion World Entry := fun w t =>
  Running t ∧ (w.supervisor.startupFailure = none → Action.initializationCompleted ∈ acts t)

theorem guided_finishInitialization :
    Program.Guided (Concludable launch) (Move launch) X (fun _ => Inv launch none)
      finishInitialization where
  toConfined := (Program.Logic.toGuided (holds_finishInitialization (F := Concluded)
    (R := Concluded) (Q := Program.anywhere)
    (fun w t hnone h =>
      have hrunning : Running t := (initializing_of_launched h.launched).inv.running
      ⟨.completed w t hnone (h.undecided hnone) hrunning,
        running_cons (fun _ he => by cases he) hrunning, fun _ => List.mem_cons_self⟩)
    (fun w t hsome h =>
      ⟨(initializing_of_launched h.launched).inv.running, fun hnone => absurd hnone hsome⟩)
    (fun w t h => ⟨.onward (.refreshed w t) h.1, h⟩)
    fun w t h => ⟨.concluded w t h.2 h.1, trivial⟩)).toConfined
  triple := Program.triple_conseq _ (Program.triple_stop triple_finishInitialization
    fun _ _ _ => trivial) (fun _ _ h => h.launched) fun _ _ _ h => h

/-! ### Launches -/

theorem undecided_of_logged (h : Initializing launch w t) (hlogged : Logged launch w t) :
    Undecided t := by
  refine ⟨fun hm => ?_, hlogged.unfailed⟩
  have hcomplete := h.inv.state.completed hm
  rw [h.early] at hcomplete
  cases hcomplete

/-- Onward stretches of a run that has not come to its shutdown are moves, and they leave the
processes and the entries of their starts in order. -/
theorem guided_moves {α : Type} {P : Program.Assertion World Entry}
    {Q : α → Program.Assertion World Entry} {p : Act α}
    (h : Program.Guided P (Onward launch) X' Q p) (hX : ∀ e, X' e → X e)
    (hP : ∀ w t, P w t → Running t ∧ Logged launch w t) :
    Program.Guided P (Move launch) X (fun a w t => Q a w t ∧ Logged launch w t) p where
  toConfined := (move_of_onward h.toConfined fun w t hp => (hP w t hp).1).raising hX
  triple := by
    have hlogged := h.passes.triple (I := Logged launch) fun _ _ _ _ => logged_onward
    exact Program.triple_pre _ (Program.triple_stop (Program.triple_and h.triple hlogged)
      fun _ _ _ => trivial) fun w t hp => ⟨hp, hp, (hP w t hp).2⟩

variable (hX : ∀ e, WaitFailed e → X e)
include hX

theorem guided_drive (wait : ℕ) :
    Program.Guided (Underway launch k k k) (Move launch) X
      (Unless (Observed launch) (Underway launch k k k)) (drive wait) := by
  have hdrive : Program.Guided (Underway launch k k k) (Onward launch) WaitFailed
      (Unless (Observed launch) (Stage launch k k k)) (drive wait) :=
    ⟨confined_drive wait, Program.triple_conseq _ (Program.triple_stop (triple_drive_stage wait)
      fun _ _ _ => trivial) (fun _ _ h => h.toStage) fun _ _ _ h => h⟩
  refine (guided_moves hdrive hX fun w t h => ⟨h.inv.running, h.toLogged⟩).conseq
    (fun _ _ h => h) fun signal w t h => ?_
  cases signal with
  | none => exact ⟨h.1, h.2⟩
  | some signal => exact h.1

omit hX in
theorem guided_launch (sandrun : Bytes) (hturn : launch[k]? = some process.toCommonProcess)
    (hlaunches : Launches sandrun process) :
    Program.Guided (fun w t => w.supervisor.startupFailure = none ∧ Underway launch k k k w t)
      (Move launch) X (Returned
        (fun error => Failable launch (lit "failed to start " ++ process.name ++ lit ": " ++ error))
        fun index w t => index = k ∧ Underway launch (k + 1) (k + 1) k w t)
      (spawn process sandrun) := by
  have hspawn : Program.Guided (fun w t => w.supervisor.startupFailure = none ∧
      Underway launch k k k w t) (Onward launch) X _ (spawn process sandrun) :=
    (guided_spawn sandrun hturn hlaunches).conseq
      (fun w t h => ⟨h.1, h.2.registered, h.2.calls⟩) fun _ _ _ h => h
  have hstages : Program.Triple (Turned launch k process k) (spawn process sandrun) _ _ :=
    triple_spawn sandrun
  have hmoves := guided_moves (X := X) hspawn (fun _ h => h) fun w t h =>
    ⟨h.2.inv.running, h.2.toLogged⟩
  refine ⟨hmoves.toConfined, Program.triple_conseq _ (Program.triple_stop (Program.triple_and
    hmoves.triple hstages) fun _ _ _ => trivial) (fun w t h => ⟨h, h.2.toStage, hturn, h.1,
      no_cleanup_of_stage h.2.toStage h.1⟩) ?_⟩
  rintro result w t ⟨⟨hcalled, hlogged⟩, hstage⟩
  cases result with
  | error error =>
    obtain ⟨hnone, hlength, hcalls⟩ := hcalled
    refine ⟨hstage, Or.inr ⟨hnone, ?_⟩, undecided_of_logged hstage hlogged⟩
    exact .unstarted process.toCommonProcess error (by rw [hlength, hturn])
      (by rw [hlength, hcalls])
  | ok index => exact ⟨hstage.1, hstage.2, hlogged⟩

theorem guided_gate {sandrun : Bytes} (hturn : launch[k]? = some process.toCommonProcess)
    (hlaunches : Launches sandrun process) :
    Program.Guided (Underway launch (k + 1) (k + 1) k) (Move launch) X
      (GateEnds (Underway launch (k + 1) (k + 1) (k + 1)) (Failable launch) (Observed launch))
      (passGate process k) := by
  have hmoves := guided_moves (guided_passGate hturn hlaunches) hX fun w t h =>
    ⟨h.inv.running, h.toLogged⟩
  refine ⟨hmoves.toConfined, Program.triple_conseq _ (Program.triple_stop (Program.triple_and
    hmoves.triple (triple_passGate hturn)) fun _ _ _ => trivial)
    (fun w t h => ⟨h, h.toStage⟩) ?_⟩
  rintro outcome w t ⟨⟨hreasoned, hlogged⟩, hstage⟩
  cases outcome with
  | completed => exact ⟨hstage, hlogged⟩
  | failed reason => exact ⟨hstage, hreasoned, undecided_of_logged hstage hlogged⟩
  | signal signal => exact hstage

omit hX

/-! ### `run` -/

/-- How a run can fail: before the first launch, or in `waitpid`. -/
def RunFailed (host : Host) (spec : Spec) (e : Failure RuntimeError) : Prop :=
  host.contract.mapError Failure.error = .error e ∨ host.sandrun.mapError Failure.error = .error e ∨
    flatten host.passwd spec = .error e ∨ WaitFailed e

/-- Every process that may come out of the declaration can be launched. -/
def Launchworthy (host : Host) (spec : Spec) : Prop :=
  ∀ sandrun declarations, flatten host.passwd spec = .ok declarations →
    ∀ process ∈ declarations, Launches sandrun process

theorem underway_of_starting (h : Starting w t) : Underway launch 0 0 0 w t where
  toStage := stage_of_starting h
  clocked := fun entry hm => by
    rw [h.2.2] at hm
    cases hm
  named := by
    rw [h.1]
    rfl
  started := fun i hi => by
    rw [h.1] at hi
    cases hi
  unfailed := fun reason hm => by
    rw [h.2.2] at hm
    cases hm

theorem outline_moves {host : Host} {spec : Spec} {declarations : List LaunchProcess}
    (sandrun : Bytes) (hworthy : Launchworthy host spec)
    (hflatten : flatten host.passwd spec = .ok declarations) :
    Outline (.guided (Move spec.processes) (RunFailed host spec)) sandrun declarations
      (fun k => Underway spec.processes k k k) (fun k => Underway spec.processes (k + 1) (k + 1) k)
      (Failable spec.processes) (FailedStartup spec.processes) (Concludable spec.processes)
      (Inv spec.processes none) (Observed spec.processes) (fun _ => Program.anywhere) := by
  have hX : ∀ e, WaitFailed e → RunFailed host spec e := fun e he => Or.inr (Or.inr (Or.inr he))
  have hlaunches : ∀ {k : ℕ} {process : LaunchProcess}, declarations[k]? = some process →
      Launches sandrun process := fun hturn =>
    hworthy sandrun declarations hflatten _ (List.mem_of_getElem? hturn)
  exact
    { begin := fun _ => guided_drive hX 0
      faulty := fun _ _ _ _ hfailure h =>
        ⟨h.toInitializing, Or.inl hfailure, undecided_of_logged h.toInitializing h.toLogged⟩
      spawn := fun _ _ hturn => guided_launch sandrun (common_of_flatten hflatten hturn)
        (hlaunches hturn)
      gate := fun _ _ hturn => guided_gate hX (common_of_flatten hflatten hturn) (hlaunches hturn)
      giveUp := guided_failStartup
      last := by
        rw [length_of_flatten hflatten]
        refine (guided_drive (k := spec.processes.length) hX 0).conseq (fun w t h => ?_)
          fun signal w t h => ?_
        · rcases h.2 with hunderway | hfailed
          · exact hunderway
          · have hsome := hfailed.failure
            rw [h.1] at hsome
            cases hsome
        · cases signal with
          | none => exact ⟨Or.inl h.toStage, fun _ =>
              undecided_of_logged h.toInitializing h.toLogged⟩
          | some signal => exact h
      failed := fun w t hsome h => by
        rw [length_of_flatten hflatten] at h
        exact ⟨h.imp_left (·.toStage), fun hnone => absurd hnone hsome⟩
      finish := guided_finishInitialization
      supervise :=
        { toConfined := (move_of_onward (confined_drive _) fun w t h => h.running).raising hX
          triple := Program.triple_stop (triple_drive_inv _) fun _ _ _ => trivial }
      shutdown := guided_shutdown
      stop := fun _ _ _ => trivial }

theorem confined_run (host : Host) (spec : Spec) (hworthy : Launchworthy host spec) :
    ∃ body, run host spec = (Program.modify (fun world => { world with
      kernel := { world.kernel with receivedSignal := 0 } }) >>= fun _ => body) ∧
      Program.Confined Starting (Move spec.processes) (RunFailed host spec) body := by
  have hraised : ∀ e, host.contract.mapError Failure.error = .error e ∨
      host.sandrun.mapError Failure.error = .error e ∨ flatten host.passwd spec = .error e →
        RunFailed host spec e := by
    rintro e (he | he | he)
    · exact Or.inl he
    · exact Or.inr (Or.inl he)
    · exact Or.inr (Or.inr (Or.inl he))
  obtain ⟨body, hrun, hbody⟩ := holds_run (P := Starting)
    (L := .guided (Move spec.processes) (RunFailed host spec))
    (I := fun k => Underway spec.processes k k k) host spec (fun e he _ _ _ => hraised e he)
    (fun _ _ h => underway_of_starting h) fun sandrun _ => outline_moves sandrun hworthy
  exact ⟨body, hrun, (Program.Logic.toGuided hbody).toConfined⟩

/-- Where a run begins: no signal is pending. -/
def beginning (kernel : Kernel) : Program.Place World Entry :=
  (⟨Supervisor.new, { kernel with receivedSignal := 0 }, []⟩, [])

/-- Whatever happens around it, a run gets around by moves. -/
theorem run_moves (host : Host) (spec : Spec) (kernel : Kernel) (schedule : List Turn)
    (hworthy : Launchworthy host spec) :
    Relation.ReflTransGen (Move spec.processes) (beginning kernel)
      (Program.Run.place (run host spec (start kernel schedule)).2) := by
  obtain ⟨body, hbody, hconfined⟩ := confined_run host spec hworthy
  rw [hbody]
  exact hconfined.passes ⟨(beginning kernel).1, schedule, []⟩ ⟨rfl, rfl, rfl⟩

theorem run_raises (host : Host) (spec : Spec) (kernel : Kernel) (schedule : List Turn)
    (hworthy : Launchworthy host spec) (e : Failure RuntimeError)
    (h : (run host spec (start kernel schedule)).1 = .raised e) : RunFailed host spec e := by
  obtain ⟨body, hbody, hconfined⟩ := confined_run host spec hworthy
  rw [hbody] at h
  exact hconfined.raises ⟨(beginning kernel).1, schedule, []⟩ ⟨rfl, rfl, rfl⟩ e h

/-- What the moves keep holds wherever a run has come to. -/
theorem run_keeps (host : Host) (spec : Spec) (kernel : Kernel) (schedule : List Turn)
    (hworthy : Launchworthy host spec) {I : Program.Assertion World Entry}
    (hbegin : I (beginning kernel).1 [])
    (hmove : ∀ w t w' t', Move spec.processes (w, t) (w', t') → I w t → I w' t') :
    I (run host spec (start kernel schedule)).2.state (runTrace host spec kernel schedule) := by
  have hpath : ∀ place, Relation.ReflTransGen (Move spec.processes) (beginning kernel) place →
      I place.1 place.2 := by
    intro place hplace
    induction hplace with
    | refl => exact hbegin
    | tail _ hlast ih => exact hmove _ _ _ _ hlast ih
  exact hpath _ (run_moves host spec kernel schedule hworthy)

end Sandcamp.Campd
