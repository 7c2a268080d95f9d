import Sandcamp.Campd.Gates
import Sandcamp.Campd.Ownership

/-!
# What shutdown terminates over whole runs

The ledger is kept by everything up to the call of `terminate_groups`, from the first spawn on.
-/

namespace Sandcamp.Campd
open Foundations

variable {t : Trace} {group : ℕ} {w : World} {standings : List Standing} {pending : List ℕ}

/-! ### `schedule_cleanup` -/

def Booked : Program.Assertion World Entry := fun w t =>
  Ledger w.supervisor.standings w.supervisor.cleanupGroups t

/-- Wherever a run stops. -/
def Targeted : Program.Assertion World Entry := fun _ t => Targets t

theorem targeted_of_booked (w : World) (t : Trace) (h : Booked w t) : Targeted w t := h.targets

theorem foundGone_routine {action : Action} (hroutine : action.routine = true)
    (h : group ∈ foundGone (⟨action, w⟩ :: t)) : group ∈ foundGone t := by
  refine foundGone_cons (fun g he => ?_) h
  rw [show action = _ from he] at hroutine
  cases hroutine

theorem ledger_routine (action : Action) (hroutine : action.routine = true)
    (h : Ledger standings pending t) : Ledger standings pending (⟨action, w⟩ :: t) := by
  have hplain : action.booked = false := by
    cases action <;> first | rfl | cases hroutine
  exact ledger_cons _ hplain (List.Sublist.refl _)
    (fun _ hm => Or.inl (foundGone_routine hroutine hm)) h

/-- The standings are framed, with any list of groups in the place of the cleanups. -/
theorem framed_ledger (cleanups : List PendingCleanup) (pending : List ℕ) :
    Framed fun w t => w.supervisor.cleanups = cleanups ∧ Ledger w.supervisor.standings pending t where
  world := fun _ _ _ hstandings hcleanups h => ⟨hcleanups.trans h.1, hstandings ▸ h.2⟩
  entry := fun _ _ action hroutine h => ⟨h.1, ledger_routine action hroutine h.2⟩

theorem framed_booked : Framed Booked where
  world := fun _ _ _ hstandings hcleanups h => by
    rw [Booked, Supervisor.cleanupGroups, hstandings, hcleanups]
    exact h
  entry := fun _ _ action hroutine h => ledger_routine action hroutine h

theorem framed_targeted : Framed Targeted where
  world := fun _ _ _ _ _ h => h
  entry := fun _ _ action hroutine h => by
    refine (always_cons _ _ _).mpr ⟨fun groups signal he => ?_, h⟩
    rw [show action = _ from he] at hroutine
    cases hroutine

theorem open_targeted : Open Targeted := fun w t group alive h =>
  (always_cons _ _ _).mpr ⟨fun groups signal he => (by cases he), h⟩

/-- A cleanup for the group is about to be made, and the entry is still missing. -/
def Due (group : ℕ) : Program.Assertion World Entry := fun w t =>
  Booked w t ∧ Entitled w.supervisor.standings group t

theorem entitled_cons {entry : Entry} (hgone : ∀ g ∈ foundGone (entry :: t), g ∈ foundGone t)
    (h : Entitled standings group t) : Entitled standings group (entry :: t) := by
  refine h.imp_right fun hfailed => ⟨hfailed.1.cons entry, fun hfound => ?_, hfailed.2.2⟩
  exact hfailed.2.1 (hgone group hfound)

theorem framed_due (group : ℕ) : Framed (Due group) where
  world := fun w w' t hstandings hcleanups h =>
    ⟨framed_booked.world w w' t hstandings hcleanups h.1, hstandings ▸ h.2⟩
  entry := fun w t action hroutine h => ⟨framed_booked.entry w t action hroutine h.1,
    entitled_cons (fun _ hm => foundGone_routine hroutine hm) h.2⟩

theorem own_scheduleCleanup (group : ℕ) :
    Program.Triple (fun w t => (acts t).head?.any Action.schedules = true ∧ Due group w t)
      (scheduleCleanup group) (fun _ => Booked) Targeted := by
  have hdue : SteadyIn (.triples Targeted) (Due group) :=
    (framed_due group).steady.inTriples fun w t h => h.1.targets
  refine Program.Logic.triple (holds_scheduleCleanup group (A := fun _ => Due group)
    (S := fun w t => ¬w.supervisor.Pending group ∧ Due group w t)
    ⟨fun w t events h => ⟨trivial, h.1, (framed_due group).steady w t events h.2⟩,
      fun w t h => h.2.1.targets⟩ (fun w t h => ⟨trivial, ?_, ?_⟩) (fun _ _ _ _ h => h.1) hdue
    (fun w t hfree h => ⟨trivial, hfree, (framed_due group).entry w t _ rfl h⟩)
    (hdue.and fun sup => ¬sup.Pending group) fun w t h => ⟨trivial, ?_⟩)
  · exact ledger_asked _ h.1 h.2.1
  · exact entitled_cons (fun _ hm => foundGone_asked h.1 hm) h.2.2
  · rw [Booked, Supervisor.cleanupGroups, List.map_append]
    refine ledger_scheduled (fun hm => ?_) h.2.2 h.2.1
    obtain ⟨cleanup, hc, hgroup⟩ := List.mem_map.mp hm
    exact h.1 ⟨cleanup, hc, hgroup⟩

/-! ### `process_cleanups` -/

/-- In the middle of a sweep: `current` is what the list will be if the rest is kept. -/
def Sweep (cleanups current : List PendingCleanup) : Program.Assertion World Entry := fun w t =>
  w.supervisor.cleanups = cleanups ∧ Ledger w.supervisor.standings (current.map (·.group)) t

variable {cleanups kept rest : List PendingCleanup}

theorem own_processCleanup (now : ℕ) (cleanup : PendingCleanup) :
    Program.Triple (Sweep cleanups (kept ++ cleanup :: rest)) (processCleanup now cleanup)
      (fun left => Sweep cleanups (kept ++ left.toList ++ rest)) Targeted := by
  have hsteady : ∀ current, SteadyIn (.triples Targeted) (Sweep cleanups current) := fun current =>
    (framed_ledger cleanups _).steady.inTriples fun w t h => h.2.targets
  refine Program.Logic.triple (holds_processCleanup now cleanup
    (A := fun alive => Sweep cleanups (if alive then kept ++ cleanup :: rest else kept ++ rest))
    (K := fun left => Sweep cleanups (kept ++ left :: rest)) (hsteady _)
    (fun w t h => ⟨trivial, h.1, ?_⟩) (fun w t h => ?_) (hsteady _)
    (fun _ _ w t h => ⟨trivial, h.1, ?_⟩) (fun _ _ _ h => h)
    (fun left _ _ w t h => ⟨trivial, ?_⟩) fun left _ _ w t h => ?_)
  · cases w.kernel.groupExists cleanup.group with
    | true => exact ledger_entry _ rfl (by simp) h.2
    | false =>
      have hgone := h.2
      rw [List.map_append, List.map_cons] at hgone
      rw [if_neg (by simp), List.map_append]
      exact ledger_gone hgone
  · rw [Option.toList_none, List.append_nil]
    exact h
  · have hsame := ledger_routine (w := w) (.signalled cleanup.group sigkill) rfl h.2
    rw [if_pos rfl, List.map_append, List.map_cons] at hsame
    rw [List.map_append, List.map_cons]
    exact hsame
  · have hdropped := h.2
    rw [List.map_append, List.map_cons] at hdropped
    rw [Option.toList_none, List.append_nil]
    refine ⟨h.1, ?_⟩
    rw [List.map_append]
    exact ledger_drop hdropped
  · rw [Option.toList_some, List.append_assoc, List.singleton_append]
    exact h

theorem own_processCleanups :
    Program.Triple Booked processCleanups (fun _ => Booked) Targeted := by
  refine Program.Logic.triple (holds_processCleanups
    (I := fun _ cleanups done kept w t => ∀ rest, cleanups = done ++ rest →
      Sweep cleanups (kept ++ rest) w t) (framed_booked.steady.inTriples targeted_of_booked)
    (fun w t h rest hrest => ?_) (fun now cleanups done kept cleanup rest hsplit => ?_)
    fun now cleanups kept w t h => ⟨trivial, ?_⟩)
  · obtain rfl : w.supervisor.cleanups = rest := hrest
    exact ⟨rfl, h⟩
  · refine Program.Logic.conseq _ (own_processCleanup now cleanup).holds
      (fun w t h => h (cleanup :: rest) hsplit) fun left w t h rest' hsplit' => ?_
    rw [hsplit, List.append_assoc, List.append_cancel_left_eq] at hsplit'
    obtain rfl : rest = rest' := (List.cons.inj hsplit').2
    exact h
  · have hdone := (h [] (List.append_nil _).symm).2
    rw [List.append_nil] at hdone
    exact hdone

/-! ### `reap_available` -/

/-- The group of the process at `index` has been asked for; the exit comes next. -/
def Departing (index pid : ℕ) (residual : Bool) : Program.Assertion World Entry := fun w t =>
  Found index pid w.supervisor ∧ ∃ w' older, t = ⟨.groupObserved pid residual, w'⟩ :: older ∧
    Ledger w.supervisor.standings w.supervisor.cleanupGroups older

theorem standings_markExited (sup : Supervisor) (index status : ℕ) (residual : Bool)
    (process : ManagedProcess) : (sup.markExited index status residual process).standings =
      exitedStandings sup.standings index process.standing residual :=
  List.map_set

theorem own_markExited {index pid : ℕ} {residual : Bool} {process : ManagedProcess}
    {before : World} (status : ℕ) (hprocess : before.supervisor.processes[index]? = some process)
    (h : Departing index pid residual before t) :
    let sup := before.supervisor.markExited index status residual process
    Ledger sup.standings sup.cleanupGroups (⟨.exited index status residual, w⟩ :: t) ∧
      (residual = true → LeftGroup sup.standings pid) := by
  intro sup
  obtain ⟨⟨other, hother, halive, rfl⟩, w', older, rfl, hledger⟩ := h
  obtain rfl : process = other := Option.some.inj (hprocess.symm.trans hother)
  have hs : before.supervisor.standings[index]? = some process.standing := by
    rw [Supervisor.standings, List.getElem?_map, hprocess, Option.map_some]
  rw [show sup.standings = _ from standings_markExited before.supervisor index status residual
    process]
  refine ⟨ledger_exited hs halive hledger, fun hresidual => ?_⟩
  refine ⟨_, List.mem_of_getElem? ((exitedStandings_iff hs _ _).mpr (Or.inl ⟨rfl, rfl⟩)), rfl, rfl,
    hresidual⟩

theorem own_reapFound (index pid status : ℕ) :
    Program.Triple (fun w t => Found index pid w.supervisor ∧ Booked w t)
      (reapFound index pid status) (fun _ => Booked) Targeted := by
  have hsteady : SteadyIn (.triples Targeted) Booked :=
    framed_booked.steady.inTriples targeted_of_booked
  refine Program.Logic.triple (holds_reapFound index pid status (A := Departing index pid)
    (D := fun residual w t => Booked w t ∧
      (residual = true → (acts t).head?.any Action.schedules = true ∧ Due pid w t))
    (hsteady.and (Found index pid)) (fun w t h => ⟨trivial, h.1, w, t, rfl, h.2⟩)
    (fun _ _ _ h => h.1) (fun residual process w t hprocess _ _ h => ⟨trivial, ?_⟩)
    (Program.Logic.pre _ (own_scheduleCleanup pid).holds fun w t h => h.2 rfl) fun w t h => h.1)
  obtain ⟨hledger, hleft⟩ := own_markExited status hprocess h
  exact ⟨hledger, fun hresidual => ⟨hresidual, hledger, Or.inl (hleft hresidual)⟩⟩

theorem own_reapAvailable : Program.Triple Booked reapAvailable (fun _ => Booked) Targeted :=
  Program.Logic.triple (holds_reapAvailable (W := fun _ => Booked)
    (idle_waitAny (framed_booked.idle targeted_of_booked))
    (fun pid status => holds_reapProcess pid status (fun _ _ _ h => h)
      (fun _ _ _ hfound h => ⟨hfound, h⟩) fun index => (own_reapFound index pid status).holds)
    (fun _ _ _ _ h => h) (fun _ => targeted_of_booked) targeted_of_booked)

/-! ### `drive` and `shutdown` -/

theorem own_drive (wait : ℕ) : Program.Triple Booked (drive wait) (fun _ => Booked) Targeted :=
  framed_drive framed_booked targeted_of_booked own_reapAvailable own_processCleanups wait

theorem own_shutdown (signal : ℕ) :
    Program.Triple Booked (shutdown signal) (fun _ => Targeted) Targeted := by
  refine framed_shutdown framed_booked framed_targeted open_targeted targeted_of_booked signal
    fun w t h => (always_cons _ _ _).mpr ⟨fun groups number he => ?_, h.targets⟩
  obtain ⟨rfl, -⟩ := Action.terminating.inj he
  exact owned_shutdownGroups h

theorem own_failStartup (reason : Bytes) :
    Program.Triple Booked (failStartup reason) (fun _ => Booked) Targeted :=
  framed_failStartup framed_booked framed_booked.world
    (fun _ _ _ h => ledger_entry _ rfl (by simp) h) reason

/-! ### The gate of a job -/

variable {launch : List CommonProcess} {k : ℕ} {declared : LaunchProcess}

/-- The number of a running process is not that of a process with a group left. -/
def Apart (standings : List Standing) : Prop :=
  ∀ (i j : ℕ) (a b : Standing), standings[i]? = some a → standings[j]? = some b →
    a.alive = true → (b.alive = true ∨ b.residual = true) → a.pid = b.pid → i = j

theorem apart_exited {index : ℕ} {s : Standing} (residual : Bool)
    (hs : standings[index]? = some s) (halive : s.alive = true) (h : Apart standings) :
    Apart (exitedStandings standings index s residual) := by
  intro i j a b ha hb haa hmarked hpid
  rcases (exitedStandings_iff hs i a).mp ha with ⟨-, rfl⟩ | ⟨-, ha⟩
  · cases haa
  rcases (exitedStandings_iff hs j b).mp hb with ⟨rfl, rfl⟩ | ⟨-, hb⟩
  · exact h i index a s ha hs haa (Or.inl halive) hpid
  · exact h i j a b ha hb haa hmarked hpid

theorem kept_apart : Kept fun w _ => Apart w.supervisor.standings := by
  intro a w t b w' t' hstep h
  cases hstep with
  | exited _ _ older index status process hprocess halive =>
    have hs : w.supervisor.standings[index]? = some process.standing := by
      rw [Supervisor.standings, List.getElem?_map, hprocess, Option.map_some]
    have hsame := standings_markExited w.supervisor index status
      (w.kernel.groupExists process.pid) process
    rw [hsame]
    exact apart_exited _ hs halive h
  | probed _ _ index process probe success hprocess halive =>
    have hsame := standings_set { process with probe := some (probe.observe success).1 } hprocess
      rfl
    rw [Supervisor.standings, hsame]
    exact h
  | _ => exact h

/-- While the gate of the job at `k` waits. -/
def Awaiting (launch : List CommonProcess) (k : ℕ) : Program.Assertion World Entry := fun w t =>
  Stage launch (k + 1) (k + 1) k w t ∧ Apart w.supervisor.standings ∧ Booked w t

theorem own_drive_job (wait : ℕ) :
    Program.Triple (Awaiting launch k) (drive wait)
      (Unless (fun _ => Booked) (Awaiting launch k)) Targeted := by
  refine Program.triple_stop (Program.triple_post _ (Program.triple_and (triple_drive_stage wait)
    (Program.triple_and (kept_drive kept_apart wait) (own_drive wait))) fun signal w t h => ?_)
    fun w t h => h.2.2
  obtain ⟨hstage, ⟨older, -, hapart, -⟩, hbooked⟩ := h
  cases signal with
  | none => exact ⟨hstage, hapart, hbooked⟩
  | some signal => exact hbooked

/-- The gate has given up the job. -/
def GivenUpJob (process : ManagedProcess) : Program.Assertion World Entry := fun w t =>
  Booked w t ∧ (process.alive = true →
    (acts t).head?.any Action.schedules = true ∧ Entitled w.supervisor.standings process.pid t)

theorem givenUpJob_of_awaiting {process : ManagedProcess}
    (hp : w.supervisor.processes[k]? = some process) (h : Awaiting launch k w t) :
    GivenUpJob process w (⟨.jobFailed k, w⟩ :: t) := by
  obtain ⟨hstage, hapart, hbooked⟩ := h
  refine ⟨ledger_entry _ rfl (by simp) hbooked, fun halive => ⟨rfl, Or.inr ⟨?_, ?_, ?_⟩⟩⟩
  · exact ⟨k, List.mem_cons_self⟩
  · intro hfound
    have hs : w.supervisor.standings[k]? = some process.standing := by
      rw [Supervisor.standings, List.getElem?_map, hp, Option.map_some]
    rcases hbooked.cause _ (foundGone_cons (by simp) hfound) with
      ⟨other, ho, hpid, hdead, hresidual⟩ | ⟨index, hm⟩
    · obtain ⟨j, hj⟩ := List.getElem?_of_mem ho
      obtain rfl := hapart k j _ other hs hj halive (Or.inr hresidual) hpid.symm
      obtain rfl := Option.some.inj (hs.symm.trans hj)
      have hrunning : process.standing.alive = true := halive
      rw [hdead] at hrunning
      cases hrunning
    · exact hstage.noJobFailed index hm
  · exact ⟨process.standing, List.mem_map_of_mem (List.mem_of_getElem? hp), rfl⟩

theorem own_waitForJob (timeout : ℕ) :
    Program.Triple (Awaiting launch k) (waitForJob k timeout) (Leaves Booked Booked) Targeted := by
  refine course_waitForJob (J := GivenUpJob) framed_booked targeted_of_booked
    (fun w t events h => ⟨stage_stable.steady w t events h.1, h.2.1,
      framed_booked.steady w t events h.2.2⟩) (fun w t h => h.2.2) (fun w t h => h.1)
    own_drive_job (fun process w t hp h => givenUpJob_of_awaiting hp h) (fun process halive => ?_)
    (fun process w t hdead h => h.1) timeout
  exact Program.triple_pre _ (own_scheduleCleanup process.pid) fun w t h =>
    ⟨(h.2 halive).1, h.1, (h.2 halive).2⟩

/-! ### `spawn` -/

/-- No process has left a group behind, and no group was found gone. -/
def Untouched : Program.Assertion World Entry := fun w t =>
  Booked w t ∧ foundGone t = [] ∧ ∀ s ∈ w.supervisor.standings, s.residual = false

theorem framed_untouched : Framed Untouched where
  world := fun w w' t hstandings hcleanups h =>
    ⟨framed_booked.world w w' t hstandings hcleanups h.1, h.2.1, hstandings ▸ h.2.2⟩
  entry := fun w t action hroutine h => by
    refine ⟨framed_booked.entry w t action hroutine h.1, ?_, h.2.2⟩
    refine List.eq_nil_iff_forall_not_mem.mpr fun group hm => ?_
    have hold := foundGone_routine hroutine hm
    rw [h.2.1] at hold
    cases hold

theorem untouched_of_turned (h : Turned launch k declared k w t) (hbooked : Booked w t) :
    Untouched w t := by
  have hnone : ∀ s ∈ w.supervisor.standings, s.residual = false := by
    intro s hs
    obtain ⟨process, hm, rfl⟩ := List.mem_map.mp hs
    exact no_residual_of_stage h.toStage h.noFailure process hm
  refine ⟨hbooked, List.eq_nil_iff_forall_not_mem.mpr fun group hm => ?_, hnone⟩
  rcases hbooked.cause group hm with ⟨s, hs, -, -, hresidual⟩ | ⟨index, hfailed⟩
  · rw [hnone s hs] at hresidual
    cases hresidual
  · exact h.noJobFailed index hfailed

theorem own_register (process : LaunchProcess) (group : GroupId) :
    Program.Triple Untouched (register process group) (fun _ => Untouched) Targeted := by
  refine Program.Logic.triple (holds_register process group (S := fun _ => Untouched)
    (U := fun _ => Untouched) (fun w t h => ⟨trivial, ?_⟩)
    (fun _ w t h => ⟨trivial, framed_untouched.world w _ t rfl rfl h⟩)
    fun _ w t h => ⟨trivial, framed_untouched.entry w t _ rfl h⟩)
  obtain ⟨hbooked, hgone, hnone⟩ := h
  have hstandings : (w.withProcess process.toCommonProcess group).supervisor.standings =
      w.supervisor.standings ++ [⟨group.number, true, false⟩] := List.map_append
  have hlength : w.supervisor.processes.length = w.supervisor.standings.length :=
    (List.length_map _).symm
  refine ⟨?_, hgone, fun s hs => ?_⟩
  · rw [Booked, hstandings, hlength]
    exact ledger_started hgone hbooked
  · rw [hstandings] at hs
    rcases List.mem_append.mp hs with hs | hs
    · exact hnone s hs
    · rw [List.mem_singleton.mp hs]

theorem own_spawn (sandrun : Bytes) :
    Program.Triple (fun w t => Turned launch k declared k w t ∧ Booked w t) (spawn declared sandrun)
      (Returned (fun _ => Booked) fun _ => Untouched) Targeted := by
  have huntouched : Program.Triple Untouched (spawn declared sandrun) (fun _ => Untouched)
      Targeted :=
    framed_spawn framed_untouched (fun w t h => h.1.targets)
      (fun w t h => framed_untouched.entry w t _ rfl h) own_register declared sandrun
  refine Program.triple_conseq _ huntouched (fun w t h => untouched_of_turned h.1 h.2)
    fun result w t h => ?_
  cases result with
  | error error => exact h.1
  | ok index => exact h

theorem awaiting_of_untouched (hstage : Stage launch (k + 1) (k + 1) k w t)
    (h : Untouched w t) : Awaiting launch k w t := by
  refine ⟨hstage, fun i j a b ha hb halive hmarked hpid => ?_, h.1⟩
  rw [Supervisor.standings, List.getElem?_map, Option.map_eq_some_iff] at ha hb
  obtain ⟨p, hp, rfl⟩ := ha
  obtain ⟨q, hq, rfl⟩ := hb
  have hnone : q.residualGroup = false :=
    h.2.2 _ (List.mem_map_of_mem (List.mem_of_getElem? hq))
  refine hstage.inv.distinct i j p q hp hq halive (hmarked.resolve_right fun hresidual => ?_) hpid
  have hsome : q.residualGroup = true := hresidual
  rw [hnone] at hsome
  cases hsome

theorem own_passGate :
    Program.Triple (fun w t => Stage launch (k + 1) (k + 1) k w t ∧ Untouched w t)
      (passGate declared k) (Leaves Booked Booked) Targeted := by
  refine Program.Logic.triple (holds_passGate declared k (fun _ _ _ => ?_) (fun _ _ w t h => h.2.1)
    (fun timeout _ _ => ?_) fun _ _ w t h => h.2.1.targets)
  · refine Program.Logic.conseq _ (framed_waitForService framed_booked targeted_of_booked own_drive
      k _).holds (fun w t h => h.2.1) fun outcome w t h => ?_
    cases outcome <;> exact h
  · exact Program.Logic.pre _ (own_waitForJob _).holds fun w t h => awaiting_of_untouched h.1 h.2

/-! ### Whole runs -/

theorem booked_of_starting (w : World) (t : Trace) (h : Starting w t) : Booked w t := by
  obtain ⟨hsup, -, rfl⟩ := h
  rw [Booked, hsup]
  exact
    { targets := always_nil _
      settled := fun newer index group w older ht => absurd ht (by simp)
      listed := by simp [acts, Supervisor.standings, Supervisor.new]
      reaped := by simp [acts, Supervisor.standings, Supervisor.new]
      distinct := List.nodup_nil
      entitled := by simp [Supervisor.cleanupGroups, Supervisor.new]
      cause := by simp [foundGone, goneBefore] }

theorem own_run (host : Host) (spec : Spec) :
    Program.Triple Starting (run host spec) (fun _ => Targeted) Targeted :=
  course_run framed_booked targeted_of_booked host spec own_drive own_shutdown (fun _ _ h => h)
    own_failStartup (fun sandrun _ _ => own_spawn sandrun) (fun _ _ => own_passGate)
    booked_of_starting

/-- In every run, the groups that a shutdown passes to `terminate_groups` are campd's, and none of
them was found gone since its process was spawned, just when every process whose group was found
gone has been reaped with no group left. -/
theorem shutdown_targets_iff (host : Host) (spec : Spec) (kernel : Kernel) (schedule : List Turn)
    (newer older : Trace) (w : World) (groups : List ℕ) (signal : ℕ)
    (h : runTrace host spec kernel schedule = newer ++ ⟨.terminating groups signal, w⟩ :: older) :
    (∀ group ∈ groups, Owned older group) ↔ LeftNothing older := by
  have htargets : Targets (runTrace host spec kernel schedule) :=
    (own_run host spec).reached (r := start kernel schedule) ⟨rfl, rfl, rfl⟩ fun _ _ _ h => h
  exact htargets newer _ older h groups signal rfl

/-! ### Two runs -/

def Entry.starts (group : ℕ) (entry : Entry) : Bool :=
  match entry.action with
  | .started _ number => number = group
  | _ => false

theorem owned_iff_index (t : Trace) (group : ℕ) : Owned t group ↔
    ∃ n < t.length, t[n]?.any (Entry.starts group) = true ∧ group ∉ foundGone (t.take n) := by
  constructor
  · rintro ⟨newer, index, w, older, rfl, hnot⟩
    refine ⟨newer.length, by simp, ?_, ?_⟩
    · simp [Entry.starts]
    · rwa [List.take_left]
  · rintro ⟨n, hlt, hstarts, hnot⟩
    rw [List.getElem?_eq_getElem hlt, Option.any_some, Entry.starts] at hstarts
    split at hstarts
    · rename_i index number he
      refine ⟨t.take n, index, t[n].world, t.drop (n + 1), ?_, hnot⟩
      have hnumber : number = group := by simpa using hstarts
      have hentry : (⟨.started index group, t[n].world⟩ : Entry) = t[n] := by
        rw [← hnumber, ← he]
      rw [hentry, List.getElem_cons_drop, List.take_append_drop]
    · cases hstarts

instance (t : Trace) (group : ℕ) : Decidable (Owned t group) :=
  decidable_of_iff _ (owned_iff_index t group).symm

/-- A service, and a job that does not end in time. -/
def lateSpec : Spec :=
  ⟨3, [], [setupProcess (lit "server") .service none,
    setupProcess (lit "setup") .runToCompletion (some 1000)]⟩

/-- The job ends on the `SIGTERM` of its cleanup and leaves nothing behind; the sweep finds its
group gone. Then campd is told to stop. -/
def lateSchedule : List Turn :=
  (List.range 60).map fun i => match i with
    | 27 => ⟨[.tick (1000 * millisecond)], .choose 0⟩
    | 33 => ⟨[.exit 117 15], .choose 0⟩
    | 39 => ⟨[.signal 15], .choose 0⟩
    | 47 => ⟨[.exit 108 0], .choose 0⟩
    | i => ⟨[], .choose (100 + i)⟩

def lateTrace : Trace := runTrace setupHost lateSpec setupKernel lateSchedule

theorem shutdown_targets_late :
    foundGone (lateTrace.drop 5) = [117] ∧ Owned (lateTrace.drop 5) 108 ∧
      LeftNothing (lateTrace.drop 5) := by
  have howned : ∀ group ∈ [108], Owned (lateTrace.drop 5) group := by decide +kernel
  refine ⟨by decide +kernel, howned 108 List.mem_cons_self, ?_⟩
  exact (shutdown_targets_iff setupHost lateSpec setupKernel lateSchedule (lateTrace.take 4)
    (lateTrace.drop 5) ((lateTrace[4]?.map Entry.world).getD setupWorld) [108] 15
    (by decide +kernel)).mp howned

/-- Two services. -/
def pairSpec : Spec :=
  ⟨3, [], [setupProcess (lit "server") .service none, setupProcess (lit "worker") .service none]⟩

/-- The server ends while a child of it runs in its group, and the child ends on the `SIGTERM` of
the cleanup. Once the sweep has found the group gone, the other service forks a process that gets
the number of the server and makes a group of its own; then campd is told to stop. -/
def reusedSchedule : List Turn :=
  (List.range 60).map fun i => match i with
    | 26 => ⟨[.fork 108 200, .exit 108 0], .choose 0⟩
    | 31 => ⟨[.exit 200 15, .adopt 200], .choose 0⟩
    | 36 => ⟨[.fork 117 108, .newGroup 108, .signal 15], .choose 0⟩
    | 45 => ⟨[.tick shutdownGrace], .choose 0⟩
    | i => ⟨[], .choose (100 + i)⟩

def reusedTrace : Trace := runTrace setupHost pairSpec setupKernel reusedSchedule

def reusedWorld : World := (reusedTrace[10]?.map Entry.world).getD setupWorld

/-- Group 108 of generation 0 was the server's and has no member left; the group that is sent
`SIGTERM` and `SIGKILL` is another one. -/
theorem shutdown_targets_reused :
    (¬∀ newer older w groups signal,
      reusedTrace = newer ++ ⟨.terminating groups signal, w⟩ :: older →
        ∀ group ∈ groups, Owned older group) ∧
    validate pairSpec = .ok () ∧
    Action.terminating [108, 117] 15 ∈ acts reusedTrace ∧
    reusedWorld.groups = [⟨108, 0⟩, ⟨117, 1⟩] ∧
    reusedWorld.kernel.table.map (·.group) = [⟨108, 2⟩, ⟨117, 1⟩] ∧
    Action.signalled 108 sigterm ∈ acts (reusedTrace.take 10) ∧
    Action.signalled 108 sigkill ∈ acts (reusedTrace.take 10) := by
  have hcall : reusedTrace = reusedTrace.take 10 ++
      ⟨.terminating [108, 117] 15, reusedWorld⟩ :: reusedTrace.drop 11 := by decide +kernel
  have hnot : ¬Owned (reusedTrace.drop 11) 108 := by decide +kernel
  exact ⟨fun hall => hnot (hall _ _ _ _ _ hcall 108 List.mem_cons_self), by decide +kernel⟩

end Sandcamp.Campd
