import Sandcamp.Campd.History
import Sandcamp.Campd.LaunchRules

/-!
# The invariant of the supervisor

`Inv` ties the supervisor's state to the kernel and to the trace while campd is
not shutting down. It holds wherever campd interacts with its surroundings; each
lemma of this module says that one event or one update of the state keeps it.
Between `waitpid` and the update of the process it reaped, the child of that one
process is already gone: `hole` is its index.
-/

namespace Sandcamp.Campd
open Foundations

structure Inv (launch : List CommonProcess) (hole : Option ℕ) (w : World) (t : Trace) : Prop where
  safe : Safe launch t
  state : StateOk w.supervisor t
  running : ∀ signal, Action.shutdownBegan signal ∉ acts t
  unheard : Unheard t
  grouped : w.groups.length = w.supervisor.processes.length
  declared : ∀ (i : ℕ) (process : ManagedProcess), w.supervisor.processes[i]? = some process →
    ∃ declaration : CommonProcess, launch[i]? = some declaration ∧
      process.kind = declaration.kind ∧
      process.probe = declaration.readinessProbe.map fun probe => probeAfter probe (deliveries i t)
  alive : ∀ (i : ℕ) (process : ManagedProcess), w.supervisor.processes[i]? = some process →
    process.alive = true →
      ¬HasExited i t ∧ process.exitStatus = none ∧ process.residualGroup = false
  reaped : ∀ (i : ℕ) (process : ManagedProcess), w.supervisor.processes[i]? = some process →
    process.alive = false →
      ∃ status, process.exitStatus = some status ∧
        Action.exited i status process.residualGroup ∈ acts t
  future : ∀ i, w.supervisor.processes.length ≤ i → ¬HasExited i t ∧ deliveries i t = []
  complete : w.supervisor.initializationComplete = true →
    Action.initializationCompleted ∈ acts t ∧ w.supervisor.processes.length = launch.length
  /-- During initialization the first service to exit is a startup failure. -/
  early : w.supervisor.initializationComplete = false → w.supervisor.startupFailure = none →
    ∀ process ∈ w.supervisor.processes, process.kind = .service → process.alive = true
  /-- During initialization a cleanup has a reason that stops the launching. -/
  cause : w.supervisor.cleanups ≠ [] → w.supervisor.initializationComplete = true ∨
    w.supervisor.startupFailure.isSome = true ∨
    (∃ process ∈ w.supervisor.processes, process.residualGroup = true) ∨
    ∃ i, Action.jobFailed i ∈ acts t
  owner : ∀ cleanup ∈ w.supervisor.cleanups, ∃ (i : ℕ) (process : ManagedProcess),
    w.supervisor.processes[i]? = some process ∧ process.pid = cleanup.group ∧
      (process.alive = false ∨
        (process.kind = .runToCompletion ∧ Action.jobFailed i ∈ acts t))
  apart : ∀ cleanup ∈ w.supervisor.cleanups, ∀ process ∈ w.supervisor.processes,
    process.kind = .service → process.alive = true → process.pid ≠ cleanup.group
  /-- The pid of a child that was not waited for is not handed out again. -/
  distinct : ∀ (i j : ℕ) (p q : ManagedProcess), w.supervisor.processes[i]? = some p →
    w.supervisor.processes[j]? = some q → p.alive = true → q.alive = true → p.pid = q.pid → i = j
  children : ∀ (i : ℕ) (process : ManagedProcess), w.supervisor.processes[i]? = some process →
    process.alive = true → hole ≠ some i → w.kernel.HasChild process.pid
  groups : ∀ (i : ℕ) (group : GroupId) (process : ManagedProcess), w.groups[i]? = some group →
    w.supervisor.processes[i]? = some process → group.number = process.pid ∧
      group.generation < w.kernel.nextGeneration ∧
      (process.alive = false → process.residualGroup = false → w.kernel.Vanished group)

variable {launch : List CommonProcess} {hole : Option ℕ} {w : World} {t : Trace}

/-! ### The kernel moves -/

theorem inv_kernel (kernel : Kernel) (h : Inv launch hole w t) (hmoves : w.kernel.Moves kernel) :
    Inv launch hole { w with kernel := kernel } t :=
  { h with
    children := fun i process hp ha hh => hmoves.child _ (h.children i process hp ha hh)
    groups := fun i group process hg hp => by
      obtain ⟨hnumber, hgen, hgone⟩ := h.groups i group process hg hp
      exact ⟨hnumber, Nat.lt_of_lt_of_le hgen hmoves.generation,
        fun ha hr => hmoves.vanished _ (hgone ha hr)⟩ }

theorem inv_release (i pid : ℕ) (process : ManagedProcess) (h : Inv launch none w t)
    (hp : w.supervisor.processes[i]? = some process) (ha : process.alive = true)
    (hpid : process.pid = pid) :
    Inv launch (some i) { w with kernel := w.kernel.release pid } t :=
  { h with
    children := fun j other hq hb hne => by
      refine Kernel.hasChild_release ?_ (h.children j other hq hb (by simp))
      intro he
      have hij := h.distinct j i other process hq hp hb ha (he.trans hpid.symm)
      exact hne (by rw [hij])
    groups := fun j group other hg hq => by
      obtain ⟨hnumber, hgen, hgone⟩ := h.groups j group other hg hq
      exact ⟨hnumber, hgen, fun hb hr => Kernel.vanished_release pid (hgone hb hr)⟩ }

/-- `waitpid` has returned a child that no process stands for. -/
theorem inv_release_other (pid : ℕ) (h : Inv launch none w t)
    (hnone : ∀ process ∈ w.supervisor.processes, process.alive = true → process.pid ≠ pid) :
    Inv launch none { w with kernel := w.kernel.release pid } t :=
  { h with
    children := fun i process hp ha hh =>
      Kernel.hasChild_release (hnone process (List.mem_of_getElem? hp) ha)
        (h.children i process hp ha hh)
    groups := fun i group process hg hp => by
      obtain ⟨hnumber, hgen, hgone⟩ := h.groups i group process hg hp
      exact ⟨hnumber, hgen, fun ha hr => Kernel.vanished_release pid (hgone ha hr)⟩ }

/-! ### Entries -/

theorem stateOk_cons (entry : Entry) (h : StateOk w.supervisor t) (hw : entry.world = w)
    (hne : entry.action ≠ .initializationCompleted) : StateOk w.supervisor (entry :: t) :=
  { h with
    failed := by
      rintro ⟨e, he, hf⟩
      rcases List.mem_cons.mp he with rfl | he
      · rwa [hw] at hf
      · exact h.failed ⟨e, he, hf⟩
    completed := fun hc =>
      h.completed (((mem_acts_cons _ _ _).mp hc).resolve_left hne.symm) }

theorem ne_completed_of_neutral {action : Action} (h : action.neutral = true) :
    action ≠ .initializationCompleted := by
  rintro rfl
  cases h

/-- An entry that changes neither the state nor what the trace says about it. -/
theorem inv_record (action : Action) (hn : action.neutral = true)
    (hok : Required launch w t action) (h : Inv launch hole w t) :
    Inv launch hole w (⟨action, w⟩ :: t) :=
  { h with
    safe := (always_cons _ _ _).mpr ⟨⟨h.state, hok, heeds_of_unheard action h.unheard⟩, h.safe⟩
    state := stateOk_cons ⟨action, w⟩ h.state rfl (ne_completed_of_neutral hn)
    running := fun signal => by
      rw [shutdownBegan_cons signal ⟨action, w⟩ t hn]
      exact h.running signal
    unheard := unheard_cons ⟨action, w⟩ t hn h.unheard
    declared := fun i process hp => by
      rw [deliveries_cons i ⟨action, w⟩ t hn]
      exact h.declared i process hp
    alive := fun i process hp ha => by
      rw [hasExited_cons i ⟨action, w⟩ t hn]
      exact h.alive i process hp ha
    reaped := fun i process hp ha => by
      obtain ⟨status, hs, hm⟩ := h.reaped i process hp ha
      exact ⟨status, hs, mem_acts_of_mem [_] hm⟩
    future := fun i hi => by
      rw [hasExited_cons i ⟨action, w⟩ t hn, deliveries_cons i ⟨action, w⟩ t hn]
      exact h.future i hi
    complete := fun hc => by
      rw [initializationCompleted_cons ⟨action, w⟩ t hn]
      exact h.complete hc
    cause := fun hc => by
      rcases h.cause hc with hi | hf | hr | ⟨i, hm⟩
      · exact Or.inl hi
      · exact Or.inr (Or.inl hf)
      · exact Or.inr (Or.inr (Or.inl hr))
      · exact Or.inr (Or.inr (Or.inr ⟨i, mem_acts_of_mem [_] hm⟩))
    owner := fun cleanup hc => by
      obtain ⟨i, process, hp, hpid, hwhy⟩ := h.owner cleanup hc
      refine ⟨i, process, hp, hpid, hwhy.imp_right ?_⟩
      exact fun ⟨hk, hm⟩ => ⟨hk, mem_acts_of_mem [_] hm⟩ }

/-- Actions of which nothing is required. -/
def Action.plain : Action → Bool
  | .forked .. | .abandoned _ | .jobSucceeded _ | .jobFailed _ | .groupObserved ..
  | .cleanupAbandoned _ | .initializationFailed _ => true
  | _ => false

theorem required_plain (action : Action) (hplain : action.plain = true) :
    Required launch w t action := by
  cases action <;> trivial

theorem neutral_of_plain (action : Action) (h : action.plain = true) : action.neutral = true := by
  cases action <;> first | rfl | cases h

theorem inv_record_plain (action : Action) (hplain : action.plain = true)
    (h : Inv launch hole w t) : Inv launch hole w (⟨action, w⟩ :: t) :=
  inv_record action (neutral_of_plain action hplain) (required_plain action hplain) h

/-! ### Readiness -/

theorem registered_of_alive_link (h : Inv launch hole w t) (i : ℕ) (process : ManagedProcess)
    (hp : w.supervisor.processes[i]? = some process) :
    process.alive = true ↔ ¬HasExited i t := by
  constructor
  · exact fun ha => (h.alive i process hp ha).1
  · intro hne
    by_contra ha
    obtain ⟨status, -, hm⟩ := h.reaped i process hp (by simpa using ha)
    exact hne ⟨status, _, hm⟩

/-- The value `update_ready` computes is what the trace says. -/
theorem readiness_iff (h : Inv launch hole w t) :
    w.supervisor.readiness = true ↔ ReadyNow launch t := by
  simp only [Supervisor.readiness, Bool.and_eq_true, List.all_eq_true, List.mem_filter,
    decide_eq_true_eq, and_imp]
  constructor
  · rintro ⟨⟨hcomplete, -⟩, hall⟩
    obtain ⟨hdone, hlength⟩ := h.complete hcomplete
    refine ⟨hdone, h.running, fun i declaration hd hkind => ?_⟩
    have hi : i < w.supervisor.processes.length := by
      rw [hlength]
      exact (List.getElem?_eq_some_iff.mp hd).1
    have hp := List.getElem?_eq_getElem hi
    obtain ⟨other, ho, hk, hprobe⟩ := h.declared i _ hp
    rw [hd] at ho
    cases ho
    have hready := hall _ (List.mem_of_getElem? hp) (hk.trans hkind)
    simp only [ManagedProcess.isReady, Bool.and_eq_true, hprobe] at hready
    refine ⟨(registered_of_alive_link h i _ hp).mp hready.1, fun probe hpr => ?_⟩
    simpa [hpr] using hready.2
  · rintro ⟨hdone, -, hall⟩
    have hcomplete := h.state.completed hdone
    refine ⟨⟨hcomplete, by rw [h.state.exclusive hcomplete]; rfl⟩, fun process hp hkind => ?_⟩
    obtain ⟨i, hi⟩ := List.getElem?_of_mem hp
    obtain ⟨declaration, hd, hk, hprobe⟩ := h.declared i process hi
    obtain ⟨hlives, hhealth⟩ := hall i declaration hd (hk ▸ hkind)
    simp only [ManagedProcess.isReady, Bool.and_eq_true]
    refine ⟨(registered_of_alive_link h i process hi).mpr hlives, ?_⟩
    rw [hprobe]
    cases hpr : declaration.readinessProbe with
    | none => rfl
    | some probe => simpa using hhealth probe hpr

theorem inv_updateReady (h : Inv launch hole w t) :
    Inv launch hole { w with supervisor := { w.supervisor with ready := w.supervisor.readiness } }
      t :=
  { h with
    state := { h.state with
      flag := fun hr => by
        simp only [Supervisor.readiness, Bool.and_eq_true] at hr
        exact hr.1.1 } }

/-! ### One process is replaced -/

/-- The entry an update of one process leaves at each index. -/
theorem getElem?_set_cases {α : Type} {xs : List α} {i j : ℕ} {a x : α}
    (h : (xs.set i a)[j]? = some x) : (i = j ∧ x = a) ∨ (i ≠ j ∧ xs[j]? = some x) := by
  by_cases hij : i = j
  · subst hij
    rw [List.getElem?_set_self'] at h
    cases hx : xs[i]? with
    | none => simp [hx] at h
    | some y =>
      rw [hx] at h
      exact Or.inl ⟨rfl, (Option.some.inj h).symm⟩
  · rw [List.getElem?_set_ne hij] at h
    exact Or.inr ⟨hij, h⟩

theorem mem_set_cases {α : Type} {xs : List α} {i : ℕ} {a x : α} (h : x ∈ xs.set i a) :
    x = a ∨ ∃ j, i ≠ j ∧ xs[j]? = some x := by
  obtain ⟨j, hj⟩ := List.getElem?_of_mem h
  rcases getElem?_set_cases hj with ⟨-, rfl⟩ | ⟨hne, hx⟩
  · exact Or.inl rfl
  · exact Or.inr ⟨j, hne, hx⟩

theorem mem_acts_of_ne {action other : Action} {w : World} {t : Trace} (hne : action ≠ other)
    (h : action ∈ acts (⟨other, w⟩ :: t)) : action ∈ acts t :=
  ((mem_acts_cons _ _ _).mp h).resolve_left hne

/-- Process `i` becomes another one of the same kind and pid, which does not come back to life. -/
structure Replaces (i : ℕ) (old new : ManagedProcess) (sup sup' : Supervisor) : Prop where
  there : sup.processes[i]? = some old
  processes : sup'.processes = sup.processes.set i new
  cleanups : sup'.cleanups = sup.cleanups
  complete : sup'.initializationComplete = sup.initializationComplete
  failure : sup.startupFailure.isSome = true → sup'.startupFailure.isSome = true
  kind : new.kind = old.kind
  pid : new.pid = old.pid
  alive : new.alive = true → old.alive = true
  residual : old.residualGroup = true → new.residualGroup = true

section Replaces

variable {i j : ℕ} {old new process : ManagedProcess} {sup sup' : Supervisor}

theorem Replaces.cases (h : Replaces i old new sup sup') (hp : sup'.processes[j]? = some process) :
    (i = j ∧ process = new) ∨ (i ≠ j ∧ sup.processes[j]? = some process) := by
  rw [h.processes] at hp
  exact getElem?_set_cases hp

theorem Replaces.before (h : Replaces i old new sup sup')
    (hp : sup'.processes[j]? = some process) : ∃ before, sup.processes[j]? = some before ∧
      process.kind = before.kind ∧ process.pid = before.pid ∧
      (process.alive = true → before.alive = true) := by
  rcases h.cases hp with ⟨rfl, rfl⟩ | ⟨-, hp⟩
  · exact ⟨old, h.there, h.kind, h.pid, h.alive⟩
  · exact ⟨process, hp, rfl, rfl, id⟩

theorem Replaces.after (h : Replaces i old new sup sup')
    (hp : sup.processes[j]? = some process) : ∃ after, sup'.processes[j]? = some after ∧
      after.kind = process.kind ∧ after.pid = process.pid ∧
      (process.alive = false → after.alive = false) ∧
      (process.residualGroup = true → after.residualGroup = true) := by
  have hi : i < sup.processes.length := (List.getElem?_eq_some_iff.mp h.there).1
  rw [h.processes]
  by_cases hij : i = j
  · subst hij
    obtain rfl := Option.some.inj (h.there.symm.trans hp)
    refine ⟨new, List.getElem?_set_self hi, h.kind, h.pid, fun hdead => ?_, h.residual⟩
    by_contra halive
    rw [h.alive (by simpa using halive)] at hdead
    cases hdead
  · exact ⟨process, by rw [List.getElem?_set_ne hij, hp], rfl, rfl, id, id⟩

theorem Replaces.length (h : Replaces i old new sup sup') :
    sup'.processes.length = sup.processes.length := by
  rw [h.processes, List.length_set]

/-- The invariant of everything but the process itself. -/
theorem inv_replaces (action : Action) (hsup : Replaces i old new w.supervisor sup')
    (h : Inv launch hole w t) (hhole : ∀ j, hole = some j → i = j ∧ new.alive = false)
    (hsafe : Safe launch (⟨action, { w with supervisor := sup' }⟩ :: t))
    (hstate : StateOk sup' (⟨action, { w with supervisor := sup' }⟩ :: t))
    (hrunning : ∀ signal, action ≠ .shutdownBegan signal)
    (hunheard : ∀ signal, action ≠ .signalObserved signal)
    (hexited : ∀ j, i ≠ j → (HasExited j (⟨action, { w with supervisor := sup' }⟩ :: t) ↔
      HasExited j t))
    (hdelivered : ∀ j, i ≠ j →
      deliveries j (⟨action, { w with supervisor := sup' }⟩ :: t) = deliveries j t)
    (hprobe : ∀ declared : Option Probe,
      old.probe = declared.map (fun probe => probeAfter probe (deliveries i t)) →
      new.probe = declared.map fun probe =>
        probeAfter probe (deliveries i (⟨action, { w with supervisor := sup' }⟩ :: t)))
    (halive : new.alive = true → ¬HasExited i (⟨action, { w with supervisor := sup' }⟩ :: t) ∧
      new.exitStatus = none ∧ new.residualGroup = false)
    (hreaped : new.alive = false → ∃ status, new.exitStatus = some status ∧
      Action.exited i status new.residualGroup ∈ acts (⟨action, { w with supervisor := sup' }⟩ :: t))
    (hearly : sup'.initializationComplete = false → sup'.startupFailure = none →
      new.kind = .service → new.alive = true)
    (hgone : new.alive = false → new.residualGroup = false → ∀ group, w.groups[i]? = some group →
      w.kernel.Vanished group) :
    Inv launch none { w with supervisor := sup' }
      (⟨action, { w with supervisor := sup' }⟩ :: t) := by
  have hi : i < w.supervisor.processes.length := (List.getElem?_eq_some_iff.mp hsup.there).1
  refine
    { safe := hsafe
      state := hstate
      running := fun signal hm => h.running signal (mem_acts_of_ne (hrunning signal).symm hm)
      unheard := fun signal hm => h.unheard signal (mem_acts_of_ne (hunheard signal).symm hm)
      grouped := h.grouped.trans hsup.length.symm
      declared := fun j process hp => ?_
      alive := fun j process hp ha => ?_
      reaped := fun j process hp ha => ?_
      future := fun j hj => ?_
      complete := fun hc => ?_
      early := fun hinit hnone process hm hk => ?_
      cause := fun hc => ?_
      owner := fun cleanup hc => ?_
      apart := fun cleanup hc process hm hk ha => ?_
      distinct := fun j k p q hp hq hpa hqa hpid => ?_
      children := fun j process hp ha _ => ?_
      groups := fun j group process hg hp => ?_ }
  · rcases hsup.cases hp with ⟨rfl, rfl⟩ | ⟨hne, hp⟩
    · obtain ⟨declaration, hd, hk, hbefore⟩ := h.declared i old hsup.there
      exact ⟨declaration, hd, hsup.kind.trans hk, hprobe _ hbefore⟩
    · rw [hdelivered j hne]
      exact h.declared j process hp
  · rcases hsup.cases hp with ⟨rfl, rfl⟩ | ⟨hne, hp⟩
    · exact halive ha
    · rw [hexited j hne]
      exact h.alive j process hp ha
  · rcases hsup.cases hp with ⟨rfl, rfl⟩ | ⟨-, hp⟩
    · exact hreaped ha
    · obtain ⟨status, hs, hm⟩ := h.reaped j process hp ha
      exact ⟨status, hs, mem_acts_of_mem [_] hm⟩
  · have hlength : w.supervisor.processes.length ≤ j := hsup.length ▸ hj
    have hne : i ≠ j := by omega
    rw [hexited j hne, hdelivered j hne]
    exact h.future j hlength
  · obtain ⟨hm, hlength⟩ := h.complete (hsup.complete ▸ hc)
    exact ⟨mem_acts_of_mem [_] hm, hsup.length.trans hlength⟩
  · have hnone' : w.supervisor.startupFailure = none := by
      by_contra hsome
      have hafter := hsup.failure (Option.isSome_iff_ne_none.mpr hsome)
      rw [show sup'.startupFailure = none from hnone] at hafter
      cases hafter
    obtain ⟨j, hj⟩ := List.getElem?_of_mem hm
    rcases hsup.cases hj with ⟨rfl, rfl⟩ | ⟨-, hj⟩
    · exact hearly hinit hnone hk
    · exact h.early (hsup.complete ▸ hinit) hnone' process (List.mem_of_getElem? hj) hk
  · rcases h.cause (hsup.cleanups ▸ hc) with hinit | hf | ⟨process, hm, hr⟩ | ⟨k, hm⟩
    · exact Or.inl (hsup.complete.trans hinit)
    · exact Or.inr (Or.inl (hsup.failure hf))
    · obtain ⟨j, hj⟩ := List.getElem?_of_mem hm
      obtain ⟨after, ha, -, -, -, hresidual⟩ := hsup.after hj
      exact Or.inr (Or.inr (Or.inl ⟨after, List.mem_of_getElem? ha, hresidual hr⟩))
    · exact Or.inr (Or.inr (Or.inr ⟨k, mem_acts_of_mem [_] hm⟩))
  · obtain ⟨j, process, hp, hpid, hwhy⟩ := h.owner cleanup (hsup.cleanups ▸ hc)
    obtain ⟨after, ha, hkind, hsame, hdead, -⟩ := hsup.after hp
    refine ⟨j, after, ha, hsame.trans hpid, ?_⟩
    rcases hwhy with hd | ⟨hk, hm⟩
    · exact Or.inl (hdead hd)
    · exact Or.inr ⟨hkind.trans hk, mem_acts_of_mem [_] hm⟩
  · obtain ⟨j, hj⟩ := List.getElem?_of_mem hm
    obtain ⟨before, hb, hkind, hsame, hlives⟩ := hsup.before hj
    rw [hsame]
    exact h.apart cleanup (hsup.cleanups ▸ hc) before (List.mem_of_getElem? hb) (hkind ▸ hk)
      (hlives ha)
  · obtain ⟨p', hp', -, hppid, hpalive⟩ := hsup.before hp
    obtain ⟨q', hq', -, hqpid, hqalive⟩ := hsup.before hq
    exact h.distinct j k p' q' hp' hq' (hpalive hpa) (hqalive hqa) (by rw [← hppid, ← hqpid, hpid])
  · obtain ⟨before, hb, -, hsame, hlives⟩ := hsup.before hp
    rw [hsame]
    refine h.children j before hb (hlives ha) fun hhere => ?_
    obtain ⟨hij, hdead⟩ := hhole j hhere
    rcases hsup.cases hp with ⟨-, rfl⟩ | ⟨hne, -⟩
    · rw [hdead] at ha
      cases ha
    · exact hne hij
  · rcases hsup.cases hp with ⟨rfl, rfl⟩ | ⟨-, hp⟩
    · obtain ⟨hnumber, hgeneration, -⟩ := h.groups i group old hg hsup.there
      exact ⟨hnumber.trans hsup.pid.symm, hgeneration, fun ha hr => hgone ha hr group hg⟩
    · exact h.groups j group process hg hp

end Replaces

/-! ### A process is reaped -/

theorem hasExited_cons_exited (i j status : ℕ) (residual : Bool) (w : World) (t : Trace) :
    HasExited i (⟨.exited j status residual, w⟩ :: t) ↔ i = j ∨ HasExited i t := by
  simp only [HasExited, mem_acts_cons, Action.exited.injEq]
  constructor
  · rintro ⟨s, r, ⟨rfl, -, -⟩ | hm⟩
    · exact Or.inl rfl
    · exact Or.inr ⟨s, r, hm⟩
  · rintro (rfl | ⟨s, r, hm⟩)
    · exact ⟨status, residual, Or.inl ⟨rfl, rfl, rfl⟩⟩
    · exact ⟨s, r, Or.inr hm⟩

theorem markExited_failure (sup : Supervisor) (index status : ℕ) (residual : Bool)
    (process : ManagedProcess) (h : sup.startupFailure.isSome = true) :
    (sup.markExited index status residual process).startupFailure.isSome = true := by
  simp only [Supervisor.markExited]
  split_ifs
  · rfl
  · exact h

theorem replaces_markExited (i status : ℕ) (residual : Bool) (process : ManagedProcess)
    {sup : Supervisor} (hp : sup.processes[i]? = some process)
    (hunleft : process.residualGroup = false) :
    Replaces i process { process with
        alive := false
        exitStatus := some status
        residualGroup := residual
        probeCancel := process.probeCancel.map fun _ => true } sup
      (sup.markExited i status residual process) where
  there := hp
  processes := rfl
  cleanups := rfl
  complete := rfl
  failure := markExited_failure sup i status residual process
  kind := rfl
  pid := rfl
  alive := by
    intro hb
    cases hb
  residual := by
    intro hr
    rw [hunleft] at hr
    cases hr

theorem stateOk_markExited (i status : ℕ) (residual : Bool) (process : ManagedProcess)
    (h : StateOk w.supervisor t) :
    StateOk (w.supervisor.markExited i status residual process) t where
  flag := h.flag
  exclusive := fun hc => by
    have hnone := h.exclusive hc
    have hinit : w.supervisor.initializationComplete = true := hc
    simp only [Supervisor.markExited, hinit, reduceCtorEq, and_false, if_false, hnone]
  failed := fun hf => markExited_failure _ _ _ _ _ (h.failed hf)
  completed := h.completed

/-- The update of `reap_available`, with its entry. `residual` is what
`process_group_exists` has answered. -/
theorem inv_markExited (i status : ℕ) (residual : Bool) (process : ManagedProcess)
    (h : Inv launch (some i) w t) (hp : w.supervisor.processes[i]? = some process)
    (ha : process.alive = true)
    (hgroup : residual = false → ∀ group, w.groups[i]? = some group → w.kernel.Vanished group) :
    Inv launch none { w with supervisor := w.supervisor.markExited i status residual process }
      (⟨.exited i status residual,
        { w with supervisor := w.supervisor.markExited i status residual process }⟩ :: t) := by
  have hstate := stateOk_markExited i status residual process h.state
  have hunleft : process.residualGroup = false := (h.alive i process hp ha).2.2
  have hsup := replaces_markExited i status residual process hp hunleft
  apply inv_replaces (.exited i status residual) hsup h
  · intro j hhere
    exact ⟨Option.some.inj hhere, rfl⟩
  · exact (always_cons _ _ _).mpr ⟨⟨hstate, trivial, heeds_of_unheard _ h.unheard⟩, h.safe⟩
  · exact { hstate with
      failed := by
        rintro ⟨e, he, hf⟩
        rcases List.mem_cons.mp he with rfl | he
        · exact hf
        · exact hstate.failed ⟨e, he, hf⟩
      completed := fun hm => hstate.completed (mem_acts_of_ne (by simp) hm) }
  · intro signal
    simp
  · intro signal
    simp
  · intro j hne
    rw [hasExited_cons_exited]
    exact or_iff_right hne.symm
  · exact fun _ _ => rfl
  · exact fun _ hprobe => hprobe
  · intro hb
    cases hb
  · exact fun _ => ⟨status, rfl, (mem_acts_cons _ _ _).mpr (Or.inl rfl)⟩
  · intro hinit hnone hk
    have hinit' : w.supervisor.initializationComplete = false := hinit
    have hkind : process.kind = .service := hk
    simp only [Supervisor.markExited, hinit', hkind, and_self, if_true] at hnone
    cases hnone
  · exact fun _ => hgroup

/-! ### A probe result is delivered -/

theorem deliveries_cons_probed (i j : ℕ) (success : Bool) (w : World) (t : Trace) :
    deliveries i (⟨.probed j success, w⟩ :: t) =
      if j = i then deliveries i t ++ [success] else deliveries i t := rfl

/-- The supervisor after `apply_probe_event` has fed a result to process `i`. -/
def Supervisor.observed (sup : Supervisor) (i : ℕ) (process : ManagedProcess) (state : ProbeState)
    (success : Bool) : Supervisor :=
  { sup with
    processes := sup.processes.set i { process with probe := some (state.observe success).1 } }

theorem replaces_observed (i : ℕ) (process : ManagedProcess) (state : ProbeState) (success : Bool)
    {sup : Supervisor} (hp : sup.processes[i]? = some process) :
    Replaces i process { process with probe := some (state.observe success).1 } sup
      (sup.observed i process state success) where
  there := hp
  processes := rfl
  cleanups := rfl
  complete := rfl
  failure := id
  kind := rfl
  pid := rfl
  alive := id
  residual := id

theorem inv_observed (i : ℕ) (process : ManagedProcess) (state : ProbeState) (success : Bool)
    (h : Inv launch none w t) (hp : w.supervisor.processes[i]? = some process)
    (ha : process.alive = true) (hprobe : process.probe = some state) :
    Inv launch none { w with supervisor := w.supervisor.observed i process state success }
      (⟨.probed i success,
        { w with supervisor := w.supervisor.observed i process state success }⟩ :: t) := by
  have hexit : ∀ j, HasExited j (⟨.probed i success,
      { w with supervisor := w.supervisor.observed i process state success }⟩ :: t) ↔
        HasExited j t := by
    intro j
    simp only [HasExited, mem_acts_cons, reduceCtorEq, false_or]
  have hdead : ¬process.alive = false := by
    rw [ha]
    simp
  apply inv_replaces (.probed i success) (replaces_observed i process state success hp) h
  · simp
  · exact (always_cons _ _ _).mpr ⟨⟨{ h.state with }, (h.alive i process hp ha).1,
      heeds_of_unheard _ h.unheard⟩, h.safe⟩
  · exact { h.state with
      failed := by
        rintro ⟨e, he, hf⟩
        rcases List.mem_cons.mp he with rfl | he
        · exact hf
        · exact h.state.failed ⟨e, he, hf⟩
      completed := fun hm => h.state.completed (mem_acts_of_ne (by simp) hm) }
  · intro signal
    simp
  · intro signal
    simp
  · exact fun j _ => hexit j
  · intro j hne
    rw [deliveries_cons_probed, if_neg hne]
  · intro declared hdeclared
    rw [hprobe] at hdeclared
    cases declared with
    | none => cases hdeclared
    | some probe =>
      have hstate : state = probeAfter probe (deliveries i t) := Option.some.inj hdeclared
      rw [Option.map_some, deliveries_cons_probed, if_pos rfl, probeAfter_snoc, ← hstate]
  · intro hb
    rw [hexit]
    exact h.alive i process hp hb
  · exact fun hb => absurd hb hdead
  · exact fun _ _ _ => ha
  · exact fun hb => absurd hb hdead

/-! ### Cleanups come and go -/

/-- What `schedule_cleanup` needs of its argument. -/
structure MayClean (sup : Supervisor) (t : Trace) (group : ℕ) : Prop where
  owner : ∃ (i : ℕ) (process : ManagedProcess), sup.processes[i]? = some process ∧
    process.pid = group ∧ (process.alive = false ∨
      (process.kind = .runToCompletion ∧ Action.jobFailed i ∈ acts t))
  apart : ∀ process ∈ sup.processes, process.kind = .service → process.alive = true →
    process.pid ≠ group
  cause : sup.initializationComplete = true ∨ sup.startupFailure.isSome = true ∨
    (∃ process ∈ sup.processes, process.residualGroup = true) ∨ ∃ i, Action.jobFailed i ∈ acts t

theorem MayClean.cons {group : ℕ} (entry : Entry) (h : MayClean w.supervisor t group) :
    MayClean w.supervisor (entry :: t) group where
  owner := by
    obtain ⟨i, process, hp, hpid, hwhy⟩ := h.owner
    exact ⟨i, process, hp, hpid, hwhy.imp_right fun h => ⟨h.1, mem_acts_of_mem [_] h.2⟩⟩
  apart := h.apart
  cause := h.cause.imp_right (Or.imp_right (Or.imp_right fun ⟨i, hm⟩ =>
    ⟨i, mem_acts_of_mem [_] hm⟩))

theorem mayClean_of_pending (h : Inv launch hole w t) (cleanup : PendingCleanup)
    (hc : cleanup ∈ w.supervisor.cleanups) : MayClean w.supervisor t cleanup.group :=
  ⟨h.owner cleanup hc, h.apart cleanup hc, h.cause (List.ne_nil_of_mem hc)⟩

theorem signalOk_of_mayClean (group : ℕ) (h : Inv launch hole w t)
    (hclean : MayClean w.supervisor t group) : SignalOk w.supervisor t group := by
  refine Or.inr ⟨Or.inl ?_, fun i process hp hk hne => ?_⟩
  · obtain ⟨i, process, hp, hpid, hwhy⟩ := hclean.owner
    refine ⟨i, process, hp, hpid, hwhy.imp_left fun hd => ?_⟩
    obtain ⟨status, -, hm⟩ := h.reaped i process hp hd
    exact ⟨status, _, hm⟩
  · exact hclean.apart process (List.mem_of_getElem? hp) hk
      ((registered_of_alive_link h i process hp).mpr hne)

def World.withCleanups (w : World) (cleanups : List PendingCleanup) : World :=
  { w with supervisor := { w.supervisor with cleanups := cleanups } }

theorem inv_withCleanups (cleanups : List PendingCleanup) (h : Inv launch hole w t)
    (hclean : ∀ cleanup ∈ cleanups, MayClean w.supervisor t cleanup.group) :
    Inv launch hole (w.withCleanups cleanups) t :=
  { h with
    state := { h.state with }
    cause := fun hne => by
      obtain ⟨cleanup, hc⟩ := List.exists_mem_of_ne_nil _ hne
      exact (hclean cleanup hc).cause
    owner := fun cleanup hc => (hclean cleanup hc).owner
    apart := fun cleanup hc => (hclean cleanup hc).apart }

/-! ### A child is registered -/

/-- What `spawn` has made of a child before it is registered. -/
structure Fresh (w : World) (group : GroupId) : Prop where
  child : w.kernel.HasChild group.number
  generation : group.generation < w.kernel.nextGeneration
  unused : ∀ process ∈ w.supervisor.processes, process.alive = true →
    process.pid ≠ group.number

theorem getElem?_snoc {α : Type} {xs : List α} {i : ℕ} {a x : α} :
    (xs ++ [a])[i]? = some x ↔ xs[i]? = some x ∨ (i = xs.length ∧ x = a) := by
  rw [List.getElem?_append, List.getElem?_singleton]
  grind

theorem inv_withProcess (declaration : CommonProcess) (group : GroupId)
    (h : Inv launch none w t) (hturn : launch[w.supervisor.processes.length]? = some declaration)
    (hclean : w.supervisor.cleanups = []) (hfresh : Fresh w group) :
    Inv launch none (w.withProcess declaration group) t := by
  have hlt : w.supervisor.processes.length < launch.length := (List.getElem?_eq_some_iff.mp hturn).1
  have hold : ∀ (i : ℕ) (process : ManagedProcess), w.supervisor.processes[i]? = some process →
      i ≠ w.supervisor.processes.length := by
    intro i process hp he
    have hi := (List.getElem?_eq_some_iff.mp hp).1
    omega
  have hgrouped := h.grouped
  refine
    { h with
      state := { h.state with }
      grouped := by simp [World.withProcess, h.grouped]
      declared := fun i process hp => ?_
      alive := fun i process hp ha => ?_
      reaped := fun i process hp ha => ?_
      future := fun i hi => ?_
      complete := fun hc => ?_
      early := fun hinit hnone process hp hk => ?_
      cause := fun hne => absurd hclean hne
      owner := fun cleanup hc => ?_
      apart := fun cleanup hc => ?_
      distinct := fun i j p q hp hq hpa hqa hpid => ?_
      children := fun i process hp ha hh => ?_
      groups := fun i g process hg hp => ?_ }
  · rcases getElem?_snoc.mp hp with hp | ⟨rfl, rfl⟩
    · exact h.declared i process hp
    · refine ⟨declaration, hturn, rfl, ?_⟩
      rw [(h.future _ (Nat.le_refl _)).2]
      rfl
  · rcases getElem?_snoc.mp hp with hp | ⟨rfl, rfl⟩
    · exact h.alive i process hp ha
    · exact ⟨(h.future _ (Nat.le_refl _)).1, rfl, rfl⟩
  · rcases getElem?_snoc.mp hp with hp | ⟨rfl, rfl⟩
    · exact h.reaped i process hp ha
    · cases ha
  · refine h.future i ?_
    simp only [World.withProcess, List.length_append, List.length_singleton] at hi
    omega
  · have hlength := (h.complete hc).2
    omega
  · rcases List.mem_append.mp hp with hp | hp
    · exact h.early hinit hnone process hp hk
    · rw [List.mem_singleton.mp hp]
      rfl
  · have hnil : cleanup ∈ w.supervisor.cleanups := hc
    rw [hclean] at hnil
    cases hnil
  · have hnil : cleanup ∈ w.supervisor.cleanups := hc
    rw [hclean] at hnil
    cases hnil
  · rcases getElem?_snoc.mp hp with hp | ⟨rfl, rfl⟩
    · rcases getElem?_snoc.mp hq with hq | ⟨rfl, rfl⟩
      · exact h.distinct i j p q hp hq hpa hqa hpid
      · exact absurd hpid (hfresh.unused p (List.mem_of_getElem? hp) hpa)
    · rcases getElem?_snoc.mp hq with hq | ⟨rfl, rfl⟩
      · exact absurd hpid.symm (hfresh.unused q (List.mem_of_getElem? hq) hqa)
      · rfl
  · rcases getElem?_snoc.mp hp with hp | ⟨rfl, rfl⟩
    · exact h.children i process hp ha hh
    · exact hfresh.child
  · rcases getElem?_snoc.mp hp with hp | ⟨rfl, rfl⟩
    · rcases getElem?_snoc.mp hg with hg | ⟨rfl, -⟩
      · exact h.groups i g process hg hp
      · exact absurd hgrouped (hold _ process hp)
    · rcases getElem?_snoc.mp hg with hg | ⟨-, rfl⟩
      · have hi := (List.getElem?_eq_some_iff.mp hg).1
        omega
      · exact ⟨rfl, hfresh.generation, fun ha => by cases ha⟩

/-! ### The end of initialization -/

/-- The supervisor after the updates of `fail_startup`. -/
theorem inv_withFailure (reason : Bytes) (h : Inv launch hole w t)
    (hinit : w.supervisor.initializationComplete = false) :
    Inv launch hole (w.withFailure reason) t :=
  { h with
    state := { h.state with
      exclusive := fun hc => by
        have hcomplete : w.supervisor.initializationComplete = true := hc
        rw [hinit] at hcomplete
        cases hcomplete
      failed := fun _ => rfl }
    early := fun _ hnone => by cases hnone
    cause := fun _ => Or.inr (Or.inl rfl) }

/-- The update at the end of initialization, with its entry. -/
theorem inv_withCompletion (h : Inv launch none w t)
    (hnone : w.supervisor.startupFailure = none)
    (hlength : w.supervisor.processes.length = launch.length)
    (hlaunched : launched t = launch.length)
    (hgates : ∀ (i : ℕ) (declaration : CommonProcess), launch[i]? = some declaration →
      GatePassed i declaration t) :
    Inv launch none w.withCompletion (⟨.initializationCompleted, w.withCompletion⟩ :: t) := by
  have hstate : StateOk w.withCompletion.supervisor t :=
    { flag := fun _ => rfl
      exclusive := fun _ => hnone
      failed := h.state.failed
      completed := fun _ => rfl }
  have hexit : ∀ j, HasExited j (⟨.initializationCompleted, w.withCompletion⟩ :: t) ↔
      HasExited j t := by
    intro j
    simp only [HasExited, mem_acts_cons, reduceCtorEq, false_or]
  refine
    { h with
      safe := (always_cons _ _ _).mpr ⟨?_, h.safe⟩
      state := { hstate with failed := ?_, completed := fun _ => rfl }
      running := fun signal hm => h.running signal (mem_acts_of_ne (by simp) hm)
      unheard := fun signal hm => h.unheard signal (mem_acts_of_ne (by simp) hm)
      declared := h.declared
      alive := fun i process hp ha => ?_
      reaped := fun i process hp ha => ?_
      future := fun i hi => ?_
      complete := fun _ => ⟨(mem_acts_cons _ _ _).mpr (Or.inl rfl), hlength⟩
      early := fun hinit => by cases hinit
      cause := fun _ => Or.inl rfl
      owner := fun cleanup hc => ?_ }
  · exact ⟨hstate, ⟨hlaunched, hgates⟩, heeds_of_unheard _ h.unheard⟩
  · rintro ⟨e, he, hf⟩
    rcases List.mem_cons.mp he with rfl | he
    · exact hf
    · exact h.state.failed ⟨e, he, hf⟩
  · rw [hexit]
    exact h.alive i process hp ha
  · obtain ⟨status, hs, hm⟩ := h.reaped i process hp ha
    exact ⟨status, hs, mem_acts_of_mem [_] hm⟩
  · rw [hexit]
    exact h.future i hi
  · obtain ⟨i, process, hp, hpid, hwhy⟩ := h.owner cleanup hc
    exact ⟨i, process, hp, hpid, hwhy.imp_right fun h => ⟨h.1, mem_acts_of_mem [_] h.2⟩⟩

end Sandcamp.Campd
