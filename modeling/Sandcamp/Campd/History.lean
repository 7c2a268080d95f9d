import Sandcamp.Foundations.Trace
import Sandcamp.Campd.Supervisor

/-!
# What the trace of a run says

Facts about a run are read off its trace, newest entry first: which processes
were reaped, which probe results were delivered, how many declarations were
launched. `EntryOk` collects what is required of every entry, given what was
recorded before it; the invariant of the supervisor establishes it.
-/

namespace Sandcamp.Campd
open Foundations

abbrev Trace := List Entry

/-- The actions of a trace. -/
def acts (t : Trace) : List Action := t.map (·.action)

/-- Process `i` was reaped. -/
def HasExited (i : ℕ) (t : Trace) : Prop :=
  ∃ status residual, Action.exited i status residual ∈ acts t

/-- The calls of `spawn` so far. -/
def launched (t : Trace) : ℕ :=
  t.countP fun entry => match entry.action with
    | .spawning _ => true
    | _ => false

/-- The probe results delivered for process `i`, oldest first. -/
def deliveries (i : ℕ) : Trace → List Bool
  | [] => []
  | entry :: older =>
    match entry.action with
    | .probed index success => if index = i then deliveries i older ++ [success] else deliveries i older
    | _ => deliveries i older

/-- The state of a probe after more results. -/
def ProbeState.fed (state : ProbeState) (results : List Bool) : ProbeState :=
  results.foldl (fun state success => (state.observe success).1) state

theorem fed_snoc (state : ProbeState) (results : List Bool) (success : Bool) :
    state.fed (results ++ [success]) = ((state.fed results).observe success).1 := by
  rw [ProbeState.fed, List.foldl_append, ProbeState.fed]
  rfl

/-- The state of a probe that has been fed these results. -/
def probeAfter (probe : Probe) (results : List Bool) : ProbeState :=
  results.foldl (fun state success => (state.observe success).1) (ProbeState.new probe)

theorem probeAfter_snoc (probe : Probe) (results : List Bool) (success : Bool) :
    probeAfter probe (results ++ [success]) = ((probeAfter probe results).observe success).1 :=
  fed_snoc (ProbeState.new probe) results success

/-- Some member of the group is left. -/
def Kernel.Occupied (k : Kernel) (group : GroupId) : Prop := ∃ p ∈ k.table, p.group = group

/-- Every group of a registered process that still has a member is among `numbers`. -/
def Covered (w : World) (numbers : List ℕ) : Prop :=
  ∀ (i : ℕ) (group : GroupId), w.groups[i]? = some group → w.kernel.Occupied group →
    group.number ∈ numbers

/-- What the supervisor knows about process `i` is that its probe is ready. -/
def SeenReady (sup : Supervisor) (i : ℕ) : Prop :=
  ∃ process state, sup.processes[i]? = some process ∧ process.probe = some state ∧
    state.health = .ready

/-! ### Requirements on entries -/

/-- Declaration `i` has passed its gate. -/
def GatePassed (i : ℕ) (declaration : CommonProcess) (t : Trace) : Prop :=
  match declaration.kind with
  | .runToCompletion => ∃ status, Action.exited i status false ∈ acts t ∧ exitCode status = 0
  | .service => declaration.readinessProbe.isSome = true →
    ∃ entry ∈ t, entry.action = .probePassed i ∧ SeenReady entry.world.supervisor i

/-- At a call of `spawn`: it is the turn of `process`, and nothing has gone wrong. -/
structure LaunchOk (launch : List CommonProcess) (sup : Supervisor) (older : Trace)
    (process : CommonProcess) : Prop where
  turn : launch[launched older]? = some process
  noSignal : ∀ signal, Action.signalObserved signal ∉ acts older
  noFailure : sup.startupFailure = none
  noCleanup : sup.cleanups = []
  gates : ∀ i < launched older, ∀ declaration : CommonProcess, launch[i]? = some declaration →
    GatePassed i declaration older ∧ (declaration.kind = .service → ¬HasExited i older)

/-- Before shutdown: whose group number a terminating signal may go to. -/
def SignalOk (sup : Supervisor) (older : Trace) (group : ℕ) : Prop :=
  (∃ signal, Action.shutdownBegan signal ∈ acts older) ∨
    ((∃ (i : ℕ) (process : ManagedProcess), sup.processes[i]? = some process ∧
        process.pid = group ∧ (HasExited i older ∨
          (process.kind = .runToCompletion ∧ Action.jobFailed i ∈ acts older))) ∨
      (acts older).head? = some (.abandoned group) ∧
        ∀ process ∈ sup.processes, process.alive = true → process.pid ≠ group) ∧
    ∀ (i : ℕ) (process : ManagedProcess), sup.processes[i]? = some process →
      process.kind = .service → ¬HasExited i older → process.pid ≠ group

/-- What the published flag has to say after a completed step. -/
def ReadyNow (launch : List CommonProcess) (older : Trace) : Prop :=
  Action.initializationCompleted ∈ acts older ∧
    (∀ signal, Action.shutdownBegan signal ∉ acts older) ∧
    ∀ (i : ℕ) (declaration : CommonProcess), launch[i]? = some declaration →
      declaration.kind = .service → ¬HasExited i older ∧ ∀ probe, declaration.readinessProbe = some probe →
        (probeAfter probe (deliveries i older)).health = .ready

/-- A startup failure stays, keeps the flag false and excludes a completed initialization. -/
structure StateOk (sup : Supervisor) (older : Trace) : Prop where
  flag : sup.ready = true → sup.initializationComplete = true
  exclusive : sup.initializationComplete = true → sup.startupFailure = none
  failed : (∃ entry ∈ older, entry.world.supervisor.startupFailure.isSome = true) →
    sup.startupFailure.isSome = true
  completed : Action.initializationCompleted ∈ acts older →
    sup.initializationComplete = true

/-- At the start of `terminate_groups`: the signal is the one that was observed, and
the groups cover all groups in use, now and when the signal was observed. -/
structure TerminatingOk (w : World) (older : Trace) (groups : List ℕ) (signal : ℕ) : Prop where
  forwarded : Action.signalObserved signal ∈ acts older
  covered : Covered w groups
  observed : ∀ entry ∈ older, ∀ number, entry.action = .signalObserved number →
    Covered entry.world groups

/-- At the end of `terminate_groups`: every group got the signal, and was found
empty or killed. -/
def TerminatedOk (older : Trace) (groups : List ℕ) : Prop :=
  ∃ signal during before w, older = during ++ ⟨.terminating groups signal, w⟩ :: before ∧
    ∀ group ∈ groups, Action.signalled group signal ∈ acts during ∧
      (Action.groupObserved group false ∈ acts during ∨
        Action.signalled group sigkill ∈ acts during)

/-- What `terminate_groups` does besides forwarding the signal, and what comes after it. -/
def Action.closing : Action → Bool
  | .groupObserved .. | .terminated _ | .finished .shutdown => true
  | .signalled _ number => number = sigkill
  | _ => false

/-- The call of `terminate_groups` and what lies between it and the observed signal. -/
def heading (groups : List ℕ) (signal : ℕ) : List Action :=
  [.terminating groups signal, .shutdownBegan signal, .finished .drive]

/-- What may come next behind an observed signal and these actions, newest first: `drive` returns,
the shutdown begins and calls `terminate_groups`, the signal goes to one group after the other, and
only when all have got it the groups are looked at and killed. -/
inductive Heeding (signal : ℕ) : List Action → Action → Prop
  | driven : Heeding signal [] (.finished .drive)
  | began : Heeding signal [.finished .drive] (.shutdownBegan signal)
  | terminating (groups : List ℕ) :
      Heeding signal [.shutdownBegan signal, .finished .drive] (.terminating groups signal)
  | forwarded (groups : List ℕ) (group : ℕ) (during : List Action) (hmem : group ∈ groups)
      (honly : ∀ action ∈ during, ∃ other ∈ groups, action = .signalled other signal) :
      Heeding signal (during ++ heading groups signal) (.signalled group signal)
  | closing (groups : List ℕ) (action : Action) (during : List Action)
      (hall : ∀ group ∈ groups, Action.signalled group signal ∈ during)
      (hclosing : action.closing = true) :
      Heeding signal (during ++ heading groups signal) action

/-- Behind an observed signal only the shutdown follows. -/
def Heeds (older : Trace) (action : Action) : Prop :=
  ∀ newer signal w before, older = newer ++ ⟨.signalObserved signal, w⟩ :: before →
    Heeding signal (acts newer) action

/-- No signal has been observed. -/
def Unheard (t : Trace) : Prop := ∀ signal, Action.signalObserved signal ∉ acts t

/-- What is required of an action in a state, after what was recorded before. -/
def Required (launch : List CommonProcess) (w : World) (older : Trace) : Action → Prop
  | .spawning process => LaunchOk launch w.supervisor older process.toCommonProcess
  | .started .. => ∀ pid, Action.abandoned pid ∉ acts older
  | .probed i _ => ¬HasExited i older
  | .probePassed i => SeenReady w.supervisor i
  | .signalled group _ => SignalOk w.supervisor older group
  | .initializationCompleted => launched older = launch.length ∧
    ∀ (i : ℕ) (declaration : CommonProcess), launch[i]? = some declaration →
      GatePassed i declaration older
  | .terminating groups signal => TerminatingOk w older groups signal
  | .terminated groups => TerminatedOk older groups
  | .finished _ => w.supervisor.ready = true ↔ ReadyNow launch older
  | _ => True

structure EntryOk (launch : List CommonProcess) (entry : Entry) (older : Trace) : Prop where
  state : StateOk entry.world.supervisor older
  required : Required launch entry.world older entry.action
  heeds : Heeds older entry.action

def Safe (launch : List CommonProcess) (t : Trace) : Prop := Always (EntryOk launch) t

/-! ### Entries that change nothing but the list -/

/-- Actions that only the trace remembers. -/
def Action.neutral : Action → Bool
  | .exited .. | .probed .. | .initializationCompleted | .shutdownBegan _ | .signalObserved _ => false
  | _ => true

theorem mem_acts_cons (action : Action) (entry : Entry) (t : Trace) :
    action ∈ acts (entry :: t) ↔ action = entry.action ∨ action ∈ acts t := by
  simp [acts]

theorem mem_acts_of_mem {action : Action} {t : Trace} (new : Trace) (h : action ∈ acts t) :
    action ∈ acts (new ++ t) := by
  rw [acts, List.map_append]
  exact List.mem_append_right _ h

theorem hasExited_cons (i : ℕ) (entry : Entry) (t : Trace) (h : entry.action.neutral = true) :
    HasExited i (entry :: t) ↔ HasExited i t := by
  have hne : ∀ status residual, Action.exited i status residual ≠ entry.action := by
    rintro status residual he
    rw [← he] at h
    cases h
  simp only [HasExited, mem_acts_cons, hne, false_or]

theorem deliveries_cons (i : ℕ) (entry : Entry) (t : Trace) (h : entry.action.neutral = true) :
    deliveries i (entry :: t) = deliveries i t := by
  rw [deliveries]
  split
  · rename_i he
    rw [he] at h
    cases h
  · rfl

theorem initializationCompleted_cons (entry : Entry) (t : Trace)
    (h : entry.action.neutral = true) :
    Action.initializationCompleted ∈ acts (entry :: t) ↔
      Action.initializationCompleted ∈ acts t := by
  have hne : Action.initializationCompleted ≠ entry.action := by
    intro he
    rw [← he] at h
    cases h
  simp only [mem_acts_cons, hne, false_or]

theorem shutdownBegan_cons (signal : ℕ) (entry : Entry) (t : Trace)
    (h : entry.action.neutral = true) :
    Action.shutdownBegan signal ∈ acts (entry :: t) ↔ Action.shutdownBegan signal ∈ acts t := by
  have hne : Action.shutdownBegan signal ≠ entry.action := by
    intro he
    rw [← he] at h
    cases h
  simp only [mem_acts_cons, hne, false_or]

theorem unheard_cons (entry : Entry) (t : Trace) (hentry : entry.action.neutral = true)
    (h : Unheard t) : Unheard (entry :: t) := by
  intro signal hm
  rcases (mem_acts_cons _ _ _).mp hm with he | hm
  · rw [← he] at hentry
    cases hentry
  · exact h signal hm

theorem heeds_of_unheard {t : Trace} (action : Action) (h : Unheard t) : Heeds t action := by
  rintro newer signal w before rfl
  exact absurd (mem_acts_of_mem newer ((mem_acts_cons _ _ _).mpr (Or.inl rfl))) (h signal)

/-- One signal is observed, and this has come behind it. -/
theorem heeds_of_split {signal : ℕ} {w : World} {before : Trace} {action : Action} (newer : Trace)
    (hnewer : Unheard newer) (hbefore : Unheard before) (h : Heeding signal (acts newer) action) :
    Heeds (newer ++ ⟨.signalObserved signal, w⟩ :: before) action := by
  have hnone : ∀ t, Unheard t → ∀ entry ∈ t, ¬∃ number, entry.action = .signalObserved number := by
    rintro t ht entry hm ⟨number, he⟩
    exact ht number (he ▸ List.mem_map_of_mem hm)
  intro newer' signal' w' before' hsplit
  obtain ⟨rfl, hentry, -⟩ := split_unique (fun e : Entry => ∃ number,
    e.action = .signalObserved number) hsplit ⟨signal', rfl⟩ (hnone newer hnewer)
    (hnone before hbefore)
  cases hentry
  exact h

theorem launched_cons_of_ne (entry : Entry) (t : Trace)
    (h : ∀ process, entry.action ≠ .spawning process) : launched (entry :: t) = launched t := by
  rw [launched, List.countP_cons, launched]
  cases ha : entry.action with
  | spawning process => exact absurd ha (h process)
  | _ => rfl

theorem launched_cons_spawning (process : LaunchProcess) (w : World) (t : Trace) :
    launched (⟨.spawning process, w⟩ :: t) = launched t + 1 := by
  rw [launched, List.countP_cons, launched]
  rfl

theorem gatePassed_append {i : ℕ} {declaration : CommonProcess} {t : Trace} (new : Trace)
    (h : GatePassed i declaration t) : GatePassed i declaration (new ++ t) := by
  unfold GatePassed at h ⊢
  cases hk : declaration.kind with
  | service =>
    rw [hk] at h
    intro hp
    obtain ⟨entry, hmem, hrest⟩ := h hp
    exact ⟨entry, List.mem_append_right _ hmem, hrest⟩
  | runToCompletion =>
    rw [hk] at h
    obtain ⟨status, hmem, hcode⟩ := h
    exact ⟨status, mem_acts_of_mem new hmem, hcode⟩

end Sandcamp.Campd
