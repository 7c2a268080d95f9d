import Sandcamp.Campd.IdleRules
import Sandcamp.Campd.Runs

/-!
# What most of a run leaves alone

Few statements of the supervisor touch the list of cleanups or what is recorded of a process:
its number, whether it lives, whether it left a group behind. An assertion about these and about
the entries that tell of them is kept by all the rest (`Framed`). The second half is the course
of a run for such an assertion: what is left to prove are the statements that do touch them.
-/

namespace Sandcamp.Campd
open Foundations

/-! ### Framed assertions -/

/-- What `shutdown` reads of a process. -/
structure Standing where
  pid : ℕ
  alive : Bool
  residual : Bool
  deriving DecidableEq

def ManagedProcess.standing (process : ManagedProcess) : Standing :=
  ⟨process.pid, process.alive, process.residualGroup⟩

def Supervisor.standings (sup : Supervisor) : List Standing :=
  sup.processes.map ManagedProcess.standing

/-- Actions that tell nothing of processes, groups and failures. -/
def Action.routine : Action → Bool
  | .started .. | .exited .. | .jobFailed _ | .groupObserved .. | .initializationFailed _
  | .terminating .. => false
  | _ => true

/-- The assertion looks at the standings, at the cleanups and at the other entries only. -/
structure Framed (P : Program.Assertion World Entry) : Prop where
  world : ∀ w w' t, w'.supervisor.standings = w.supervisor.standings →
    w'.supervisor.cleanups = w.supervisor.cleanups → P w t → P w' t
  entry : ∀ w t action, action.routine = true → P w t → P w (⟨action, w⟩ :: t)

/-- The answers of `process_group_exists` may be added. -/
def Open (P : Program.Assertion World Entry) : Prop :=
  ∀ w t group alive, P w t → P w (⟨.groupObserved group alive, w⟩ :: t)

section Interactions
variable {P E : Program.Assertion World Entry} (hP : Framed P)
include hP

theorem Framed.steady : Steady P := fun w t _ h => hP.world w _ t rfl rfl h

variable (hstop : ∀ w t, P w t → E w t)
include hstop

theorem Framed.idle : IdleIn (.triples E) P where
  shift := fun w t _ _ h => ⟨trivial, hP.world w _ t rfl rfl h⟩
  told := fun w t action hidle _ h => ⟨trivial, hP.entry w t action (by
    cases action <;> first | rfl | cases hidle) h⟩
  stop := hstop

/-! ### `drive` -/

omit hP hstop in
theorem standings_set {sup : Supervisor} {index : ℕ} {process : ManagedProcess}
    (new : ManagedProcess) (hprocess : sup.processes[index]? = some process)
    (hsame : new.standing = process.standing) :
    (sup.processes.set index new).map ManagedProcess.standing = sup.standings := by
  obtain ⟨hlt, rfl⟩ := List.getElem?_eq_some_iff.mp hprocess
  rw [List.map_set, hsame, ← List.getElem_map ManagedProcess.standing, List.set_getElem_self]
  · rfl
  · rwa [List.length_map]

/-- What reaping and sweeping keep, a round of supervision keeps. -/
theorem framed_drive (hreap : Program.Triple P reapAvailable (fun _ => P) E)
    (hsweep : Program.Triple P processCleanups (fun _ => P) E) (wait : ℕ) :
    Program.Triple P (drive wait) (fun _ => P) E := by
  have hidle : IdleIn (.triples E) P := hP.idle hstop
  refine Program.Logic.triple (holds_drive wait (U := P) (S := fun _ => P) hreap.holds
    (idle_tryReceive hidle) (fun event => holds_applyProbeEvent event ?_) hsweep.holds
    (fun w t h => ⟨trivial, hP.world w _ t rfl rfl h⟩) (idle_receivedSignal hidle)
    (fun _ _ h => h) (fun _ w t h => ⟨trivial, hP.entry w t _ rfl h⟩) hstop)
  intro process state w t hprocess _ _ h
  exact ⟨trivial, hP.entry _ t _ rfl (hP.world w _ t (standings_set _ hprocess rfl) rfl h)⟩

theorem framed_waitForService (hdrive : ∀ wait, Program.Triple P (drive wait) (fun _ => P) E)
    (index timeout : ℕ) : Program.Triple P (waitForService index timeout) (fun _ => P) E := by
  have hsteady : SteadyIn (.triples E) P := (hP.idle hstop).steady
  exact Program.Logic.triple (holds_waitForService (I := fun _ => P) (D := fun _ => P)
    (K := fun _ _ => P) hsteady (fun _ _ h => h)
    { steady := fun _ => hsteady
      drive := fun _ wait => Program.Logic.post _ (hdrive wait).holds fun signal _ _ h => by
        cases signal <;> exact h
      absent := fun _ w t _ => hstop w t
      failed := fun _ _ _ _ _ h => h
      ready := fun _ _ w t _ _ _ h => ⟨trivial, hP.entry w t _ rfl h⟩
      looking := fun _ _ _ _ _ _ _ h => h
      looks := fun _ _ => hsteady
      late := fun _ _ _ _ _ h => h
      again := fun _ _ _ _ h => h })

/-! ### Launches -/

/-- What the registration makes of the assertion, and the end of a spawn that failed. -/
theorem framed_spawn {R : Program.Assertion World Entry}
    (hfinished : ∀ w t, P w t → R w (⟨.finished .spawn, w⟩ :: t))
    (hregister : ∀ process group, Program.Triple P (register process group) (fun _ => R) E)
    (process : LaunchProcess) (sandrun : Bytes) :
    Program.Triple P (spawn process sandrun) (fun _ => R) E := by
  have hspawn : Program.Triple P (spawn process sandrun) (Returned (fun _ => R) fun _ => R) E :=
    Program.Logic.triple (idle_spawn (hP.idle hstop) process sandrun
      (fun w t h => ⟨trivial, hP.entry w t _ rfl h⟩) (fun _ _ w t => hstop w t)
      (fun _ w t h => ⟨trivial, hfinished w t h⟩) fun group => (hregister process group).holds)
  exact Program.triple_post _ hspawn fun result _ _ h => by
    cases result <;> exact h

omit hstop in
theorem framed_finishInitialization :
    Program.Triple P finishInitialization (fun _ => P) E :=
  Program.Logic.triple (holds_finishInitialization (F := P) (R := P)
    (fun w t _ h => ⟨trivial, hP.entry _ t _ rfl (hP.world w _ t rfl rfl h)⟩) (fun _ _ _ h => h)
    (fun w t h => ⟨trivial, hP.world w _ t rfl rfl h⟩)
    fun w t h => ⟨trivial, hP.entry w t _ rfl h⟩)

omit hstop in
/-- `fail_startup` turns what a failed gate has left into what holds outside of gates. -/
theorem framed_failStartup {O : Program.Assertion World Entry}
    (howed : ∀ w w' t, w'.supervisor.standings = w.supervisor.standings →
      w'.supervisor.cleanups = w.supervisor.cleanups → O w t → O w' t)
    (hfailed : ∀ reason w t, O w t → P w (⟨.initializationFailed reason, w⟩ :: t))
    (reason : Bytes) : Program.Triple O (failStartup reason) (fun _ => P) E :=
  Program.Logic.triple (holds_failStartup reason (F := P) (U := P) (R := P)
    (fun w t h => ⟨trivial, hfailed reason _ t (howed w _ t rfl rfl h)⟩)
    (fun w t h => ⟨trivial, hP.world w _ t rfl rfl h⟩)
    (fun w t h => ⟨trivial, hP.world w _ t rfl rfl h⟩)
    fun w t h => ⟨trivial, hP.entry w t _ rfl h⟩)

end Interactions

/-! ### Shutdown -/

/-- Up to the call of `terminate_groups` the one assertion holds, from then on the other. -/
theorem framed_shutdown {R P : Program.Assertion World Entry} (hR : Framed R) (hP : Framed P)
    (hasked : Open P) (hstop : ∀ w t, R w t → P w t) (signal : ℕ)
    (hbegin : ∀ w t, R w t →
      P w (⟨.terminating w.supervisor.shutdownGroups signal, w⟩ :: t)) :
    Program.Triple R (shutdown signal) (fun _ => P) P := by
  have hcancelled : ∀ sup : Supervisor, sup.cancelled.standings = sup.standings := fun sup => by
    rw [Supervisor.standings, Supervisor.cancelled, List.map_map]
    rfl
  refine Program.Logic.triple (holds_shutdown signal (U := R) (D := R) (C := R)
    (T := fun _ => P) (fun w t h => ⟨trivial, hR.entry w t _ rfl h⟩)
    (fun w t h => ⟨trivial, hR.world w _ t rfl rfl h⟩)
    (fun w t h => ⟨trivial, hR.world w _ t (hcancelled w.supervisor) rfl h⟩)
    (hR.idle hstop).steady (fun groups => ?_) fun _ w t h => ⟨trivial, hP.entry w t _ rfl h⟩)
  refine idle_terminateGroups (hP.idle fun _ _ h => h) (fun w t group h =>
    ⟨trivial, hasked w t group _ h⟩) groups signal ?_
    fun w t h => ⟨trivial, hP.entry w t _ rfl h⟩
  rintro w t ⟨rfl, h⟩
  exact ⟨trivial, hbegin w t h⟩

/-! ### The course of a run

`P` holds outside of gates, `O` after a gate that has failed, `E` wherever a run stops. -/

section Course
variable {P O E : Program.Assertion World Entry} (hP : Framed P) (hstop : ∀ w t, P w t → E w t)

/-- How a gate is left. -/
def Leaves (P O : Program.Assertion World Entry) : WaitOutcome → Program.Assertion World Entry :=
  GateEnds P (fun _ => O) fun _ => P

variable {launch : List CommonProcess} {k : ℕ} {declared : LaunchProcess}

include hP hstop in
/-- The gate of the job at `k`: `G` holds while it waits, `J` once it gives the job up. -/
theorem course_waitForJob {G : Program.Assertion World Entry}
    {J : ManagedProcess → Program.Assertion World Entry} (hsteady : Steady G)
    (hleft : ∀ w t, G w t → P w t) (hstage : ∀ w t, G w t → Stage launch (k + 1) (k + 1) k w t)
    (hdriven : ∀ wait, Program.Triple G (drive wait) (Unless (fun _ => P) G) E)
    (hgiven : ∀ process w t, w.supervisor.processes[k]? = some process → G w t →
      J process w (⟨.jobFailed k, w⟩ :: t))
    (hschedule : ∀ process, process.alive = true →
      Program.Triple (J process) (scheduleCleanup process.pid) (fun _ => O) E)
    (hdead : ∀ process w t, process.alive = false → J process w t → O w t) (timeout : ℕ) :
    Program.Triple G (waitForJob k timeout) (Leaves P O) E := by
  have hover : ∀ w t, G w t → E w t := fun w t h => hstop w t (hleft w t h)
  have hin : SteadyIn (.triples E) G := hsteady.inTriples hover
  -- the invariant says which of its processes the supervisor takes for running
  have hexit : ∀ process w t, w.supervisor.processes[k]? = some process → G w t →
      (process.exitStatus = none ↔ process.alive = true) := by
    intro process w t hp h
    refine ⟨fun hnone => ?_, fun halive => ((hstage w t h).inv.alive k process hp halive).2.1⟩
    by_contra hgone
    obtain ⟨status, hs, -⟩ := (hstage w t h).inv.reaped k process hp (by simpa using hgone)
    rw [hs] at hnone
    cases hnone
  refine Program.Logic.triple (holds_waitForJob (I := fun _ => G) (D := fun _ => G)
    (J := fun _ => J) (O := fun process w t => process.alive = true ∧ J process w t)
    (K := fun _ process w t => process.alive = true ∧
      w.supervisor.processes[k]? = some process ∧ G w t) hin (fun _ _ h => h)
    { steady := fun _ => hin
      drive := fun _ => hdriven
      absent := fun _ w t _ => hover w t
      failed := fun _ _ process w t _ hp h => ⟨trivial, hgiven process w t hp h⟩
      clean := fun _ => hschedule
      dead := fun _ => hdead
      judged := fun _ process status _ w t _ hp hstatus _ h =>
        ⟨trivial, hdead process w _ ?_ (hgiven process w t hp h)⟩
      succeeded := fun _ _ _ w t _ _ _ _ h => ⟨trivial, hP.entry w t _ rfl (hleft w t h)⟩
      looking := fun _ process w t _ hp hstatus h => ⟨(hexit process w t hp h).mp hstatus, hp, h⟩
      looks := fun _ _ => ⟨fun w t events h => ⟨trivial, h.1, h.2.1, hsteady w t events h.2.2⟩,
        fun w t h => hover w t h.2.2⟩
      late := fun _ process w t _ h => ⟨trivial, h.1, hgiven process w t h.2.1 h.2.2⟩
      overdue := fun process => Program.Logic.fact _ fun halive => hschedule process halive
      again := fun _ _ _ _ h => h.2.2 })
  rw [← Bool.not_eq_true, ← hexit process w t hp h, hstatus]
  simp

theorem course_drive (hdrive : Program.Triple P (drive 0) (fun _ => P) E) :
    Program.Triple (fun w t => Stage launch k k k w t ∧ P w t) (drive 0)
      (Unless (fun _ => P) fun w t => Stage launch k k k w t ∧ P w t) E := by
  refine Program.triple_stop (Program.triple_post _ (Program.triple_and (triple_drive_stage 0)
    hdrive) fun signal w t h => ?_) fun _ _ h => h.2
  cases signal with
  | none => exact h
  | some signal => exact h.2

variable {A : Program.Assertion World Entry}
  (hdeclared : launch[k]? = some declared.toCommonProcess)
include hdeclared

theorem course_spawn (howed : ∀ w t, P w t → O w t) (sandrun : Bytes)
    (hspawn : Program.Triple (fun w t => Turned launch k declared k w t ∧ P w t)
      (spawn declared sandrun) (Returned (fun _ => P) fun _ => A) E) :
    Program.Triple (fun w t => w.supervisor.startupFailure = none ∧ Stage launch k k k w t ∧ P w t)
      (spawn declared sandrun) (Returned (fun _ => O) fun index w t =>
        index = k ∧ Stage launch (k + 1) (k + 1) k w t ∧ A w t) E := by
  have hspawned : Program.Triple (Turned launch k declared k) (spawn declared sandrun)
      (Returned (fun _ => Initializing launch) fun index w t =>
        index = k ∧ Stage launch (k + 1) (k + 1) k w t) (Stopped launch) := triple_spawn sandrun
  refine Program.triple_stop (Program.triple_conseq _ (Program.triple_and hspawned hspawn)
    (fun w t h => ?_) fun result w t h => ?_) fun _ _ h => h.2
  · have hturned : Turned launch k declared k w t :=
      ⟨h.2.1, hdeclared, h.1, no_cleanup_of_stage h.2.1 h.1⟩
    exact ⟨hturned, hturned, h.2.2⟩
  · cases result with
    | error error => exact howed w t h.2
    | ok index => exact ⟨h.1.1, h.1.2, h.2⟩

theorem course_gate (hgate : Program.Triple
      (fun w t => Stage launch (k + 1) (k + 1) k w t ∧ A w t) (passGate declared k) (Leaves P O) E) :
    Program.Triple (fun w t => Stage launch (k + 1) (k + 1) k w t ∧ A w t) (passGate declared k)
      (GateEnds (fun w t => Stage launch (k + 1) (k + 1) (k + 1) w t ∧ P w t) (fun _ => O)
        fun _ => P) E := by
  refine Program.triple_stop (Program.triple_conseq _ (Program.triple_and
    (triple_passGate hdeclared) hgate) (fun w t h => ⟨h.1, h⟩) fun outcome w t h => ?_)
    fun _ _ h => h.2
  cases outcome with
  | completed => exact h
  | failed reason => exact h.2
  | signal signal => exact h.2

omit hdeclared
include hP hstop

/-- A run keeps what its rounds keep, from the beginning on. A launch is given by its `spawn`, where
nothing is wrong, and by the gate of what was spawned (`A`). -/
theorem course_run {A : ℕ → Program.Assertion World Entry} (host : Host) (spec : Spec)
    (hdrive : ∀ wait, Program.Triple P (drive wait) (fun _ => P) E)
    (hshutdown : ∀ signal, Program.Triple P (shutdown signal) (fun _ => E) E)
    (howed : ∀ w t, P w t → O w t)
    (hfail : ∀ reason, Program.Triple O (failStartup reason) (fun _ => P) E)
    (hspawn : ∀ sandrun k (declared : LaunchProcess),
      Program.Triple (fun w t => Turned spec.processes k declared k w t ∧ P w t)
        (spawn declared sandrun) (Returned (fun _ => P) fun _ => A k) E)
    (hgate : ∀ k (declared : LaunchProcess),
      Program.Triple (fun w t => Stage spec.processes (k + 1) (k + 1) k w t ∧ A k w t)
        (passGate declared k) (Leaves P O) E)
    (hstart : ∀ w t, Starting w t → P w t) :
    Program.Triple Starting (run host spec) (fun _ => E) E := by
  have heard : ∀ wait, Program.Triple P (drive wait) (Unless (fun _ => P) P) E := fun wait =>
    Program.triple_post _ (hdrive wait) fun signal w t h => by cases signal <;> exact h
  have houtline : ∀ sandrun declarations, flatten host.passwd spec = .ok declarations →
      Outline (.triples E) sandrun declarations (fun k w t => Stage spec.processes k k k w t ∧ P w t)
        (fun k w t => Stage spec.processes (k + 1) (k + 1) k w t ∧ A k w t) (fun _ => O) P P P
        (fun _ => P) fun _ => E := fun sandrun declarations hflatten =>
    { begin := fun _ => course_drive (hdrive 0)
      faulty := fun _ _ w t _ h => howed w t h.2
      spawn := fun k process hturn =>
        course_spawn (common_of_flatten hflatten hturn) howed sandrun (hspawn sandrun k process)
      gate := fun k process hturn =>
        course_gate (common_of_flatten hflatten hturn) (hgate k process)
      giveUp := hfail
      last := Program.Logic.pre _ (heard 0).holds fun _ _ h => h.2.elim (·.2) id
      failed := fun _ _ _ h => h.elim (·.2) id
      finish := framed_finishInitialization hP
      supervise := heard _
      shutdown := hshutdown
      stop := hstop }
  obtain ⟨body, hrun, hbody⟩ := holds_run (L := .triples E) (P := Starting) host spec
    (fun _ _ w t h => hstop w t (hstart w t h)) (fun w t h => ⟨stage_of_starting h, hstart w t h⟩)
    houtline
  rw [hrun]
  exact Program.triple_bind _ _ (Program.triple_modify _ fun _ _ h => h) fun _ => hbody

end Course

end Sandcamp.Campd
