import Sandcamp.Campd.Invariant
import Sandcamp.Campd.Steps

/-!
# What a round of supervision keeps

`drive` and everything it calls keep the invariant, and they are quiet: they reap,
deliver probe results and clean up, and otherwise leave the registered processes
and the trace as they were. `Keeps` is both together, relative to a point of the
run at which the caller knows more.
-/

namespace Sandcamp.Campd
open Foundations

/-! ### Interactions -/

/-- Wherever a run stops, the trace is safe. -/
def Stopped (launch : List CommonProcess) : Program.Assertion World Entry := fun _ t =>
  Safe launch t

/-- The assertion survives what the kernel does on its own. -/
def Stable (P : Program.Assertion World Entry) : Prop :=
  ∀ w t kernel, P w t → w.kernel.Moves kernel → P { w with kernel := kernel } t

theorem Stable.steady {P : Program.Assertion World Entry} (h : Stable P) : Steady P :=
  fun w t events hp => h w t _ hp (Kernel.moves_applyAll w.kernel events)

theorem Stable.inTriples {P E : Program.Assertion World Entry} (h : Stable P)
    (hstop : ∀ w t, P w t → E w t) : SteadyIn (.triples E) P :=
  h.steady.inTriples hstop

/-! ### Quiet stretches of a run -/

/-- From `w₀` and `t₀` on, nothing but quiet actions has happened. -/
structure Quiet (w₀ : World) (t₀ : Trace) (w : World) (t : Trace) : Prop where
  grown : ∃ new, t = new ++ t₀ ∧ ∀ entry ∈ new, entry.action.quiet = true
  length : w.supervisor.processes.length = w₀.supervisor.processes.length
  reaped : ∀ (i : ℕ) (old : ManagedProcess), w₀.supervisor.processes[i]? = some old →
    old.alive = false → ∃ process, w.supervisor.processes[i]? = some process ∧
      process.alive = false ∧ process.exitStatus = old.exitStatus ∧
      process.residualGroup = old.residualGroup
  complete : w.supervisor.initializationComplete = w₀.supervisor.initializationComplete
  failure : w₀.supervisor.startupFailure.isSome = true →
    w.supervisor.startupFailure.isSome = true

variable {launch : List CommonProcess} {hole : Option ℕ} {w₀ w : World} {t₀ t : Trace}

theorem quiet_refl (w : World) (t : Trace) : Quiet w t w t where
  grown := ⟨[], rfl, by simp⟩
  length := rfl
  reaped := fun _ old hp hd => ⟨old, hp, hd, rfl, rfl⟩
  complete := rfl
  failure := fun h => h

theorem quiet_entry (entry : Entry) (hquiet : entry.action.quiet = true) (h : Quiet w₀ t₀ w t) :
    Quiet w₀ t₀ w (entry :: t) :=
  { h with
    grown := by
      obtain ⟨new, rfl, hall⟩ := h.grown
      refine ⟨entry :: new, rfl, fun e he => ?_⟩
      rcases List.mem_cons.mp he with rfl | he
      · exact hquiet
      · exact hall e he }

theorem quiet_kernel (kernel : Kernel) (h : Quiet w₀ t₀ w t) :
    Quiet w₀ t₀ { w with kernel := kernel } t :=
  { h with }

theorem quiet_update (sup : Supervisor) (h : Quiet w₀ t₀ w t)
    (hlength : sup.processes.length = w.supervisor.processes.length)
    (hreaped : ∀ (i : ℕ) (old : ManagedProcess), w.supervisor.processes[i]? = some old →
      old.alive = false → ∃ process, sup.processes[i]? = some process ∧ process.alive = false ∧
        process.exitStatus = old.exitStatus ∧ process.residualGroup = old.residualGroup)
    (hcomplete : sup.initializationComplete = w.supervisor.initializationComplete)
    (hfailure : w.supervisor.startupFailure.isSome = true → sup.startupFailure.isSome = true) :
    Quiet w₀ t₀ { w with supervisor := sup } t where
  grown := h.grown
  length := hlength.trans h.length
  reaped := fun i old hp hd => by
    obtain ⟨mid, hm, hmd, hms, hmr⟩ := h.reaped i old hp hd
    obtain ⟨process, hq, hqd, hqs, hqr⟩ := hreaped i mid hm hmd
    exact ⟨process, hq, hqd, hqs.trans hms, hqr.trans hmr⟩
  complete := hcomplete.trans h.complete
  failure := fun hf => hfailure (h.failure hf)

theorem quiet_set (i : ℕ) (process new : ManagedProcess) (sup : Supervisor)
    (h : Quiet w₀ t₀ w t) (hp : w.supervisor.processes[i]? = some process)
    (ha : process.alive = true) (hset : sup.processes = w.supervisor.processes.set i new)
    (hcomplete : sup.initializationComplete = w.supervisor.initializationComplete)
    (hfailure : w.supervisor.startupFailure.isSome = true → sup.startupFailure.isSome = true) :
    Quiet w₀ t₀ { w with supervisor := sup } t := by
  refine quiet_update sup h (by rw [hset, List.length_set]) (fun j old hq hd => ?_) hcomplete hfailure
  have hij : i ≠ j := by
    rintro rfl
    rw [hp] at hq
    cases hq
    rw [ha] at hd
    cases hd
  refine ⟨old, ?_, hd, rfl, rfl⟩
  rw [hset, List.getElem?_set_ne hij]
  exact hq

theorem mem_acts_quiet {action : Action} (hloud : action.quiet = false) (h : Quiet w₀ t₀ w t)
    (hm : action ∈ acts t) : action ∈ acts t₀ := by
  obtain ⟨new, rfl, hall⟩ := h.grown
  simp only [acts, List.map_append, List.mem_append] at hm
  rcases hm with hm | hm
  · obtain ⟨entry, he, rfl⟩ := List.mem_map.mp hm
    rw [hall entry he] at hloud
    cases hloud
  · exact hm

theorem launched_quiet (h : Quiet w₀ t₀ w t) : launched t = launched t₀ := by
  obtain ⟨new, rfl, hall⟩ := h.grown
  have hnone : launched new = 0 := by
    rw [launched, List.countP_eq_zero]
    intro entry he
    have hq := hall entry he
    cases ha : entry.action <;> simp_all [Action.quiet]
  rw [launched, List.countP_append]
  rw [launched] at hnone
  rw [hnone, Nat.zero_add, launched]

/-! ### The invariant along a quiet stretch -/

def Keeps (launch : List CommonProcess) (hole : Option ℕ) (w₀ : World) (t₀ : Trace) :
    Program.Assertion World Entry := fun w t => Inv launch hole w t ∧ Quiet w₀ t₀ w t

theorem keeps_stable : Stable (Keeps launch hole w₀ t₀) :=
  fun _ _ kernel ⟨hinv, hquiet⟩ hmoves => ⟨inv_kernel kernel hinv hmoves, quiet_kernel kernel hquiet⟩

theorem keeps_plain (action : Action) (hplain : action.plain = true) (hquiet : action.quiet = true)
    (h : Keeps launch hole w₀ t₀ w t) : Keeps launch hole w₀ t₀ w (⟨action, w⟩ :: t) :=
  ⟨inv_record_plain action hplain h.1, quiet_entry _ hquiet h.2⟩

theorem keeps_signalled (group signal : ℕ) (h : Keeps launch hole w₀ t₀ w t)
    (hclean : MayClean w.supervisor t group) :
    Keeps launch hole w₀ t₀ w (⟨.signalled group signal, w⟩ :: t) :=
  ⟨inv_record _ rfl (signalOk_of_mayClean group h.1 hclean) h.1, quiet_entry _ rfl h.2⟩

/-! ### The invariant from step to step -/

/-- `waitpid` has just returned `pid`. -/
def Released (launch : List CommonProcess) (w₀ : World) (t₀ : Trace) (pid : ℕ) :
    Program.Assertion World Entry := fun w t =>
  ∃ before, Keeps launch none w₀ t₀ before t ∧
    w = { before with kernel := before.kernel.release pid }

/-- The published flag has just been refreshed. -/
def Refreshed (launch : List CommonProcess) (w₀ : World) (t₀ : Trace) :
    Program.Assertion World Entry := fun w t =>
  Keeps launch none w₀ t₀ w t ∧ w.supervisor.ready = w.supervisor.readiness

/-- What `drive` keeps, by where it has come to. -/
def Tended (launch : List CommonProcess) (w₀ : World) (t₀ : Trace) :
    Phase → Program.Assertion World Entry
  | .resting => Keeps launch none w₀ t₀
  | .released pid => Released launch w₀ t₀ pid
  | .reaping index _ => Keeps launch (some index) w₀ t₀
  | .left group => fun w t => Keeps launch none w₀ t₀ w t ∧ MayClean w.supervisor t group
  | .refreshed => Refreshed launch w₀ t₀
  | .heard signal => fun w t => ∃ before, t = ⟨.signalObserved signal, w⟩ :: before ∧
      Refreshed launch w₀ t₀ w before

theorem tended_turn {a : Phase} (kernel : Kernel) (hidle : a.idle = true)
    (hmoves : w.kernel.Moves kernel) (h : Tended launch w₀ t₀ a w t) :
    Tended launch w₀ t₀ a { w with kernel := kernel } t := by
  cases a with
  | resting => exact keeps_stable w t kernel h hmoves
  | released => cases hidle
  | reaping => exact keeps_stable w t kernel h hmoves
  | left group => exact ⟨keeps_stable w t kernel h.1 hmoves, h.2⟩
  | refreshed => exact ⟨keeps_stable w t kernel h.1 hmoves, h.2⟩
  | heard => cases hidle

theorem tended_observed {a : Phase} (group : ℕ) (alive : Bool) (hidle : a.idle = true)
    (h : Tended launch w₀ t₀ a w t) :
    Tended launch w₀ t₀ a w (⟨.groupObserved group alive, w⟩ :: t) := by
  cases a with
  | resting => exact keeps_plain _ rfl rfl h
  | released => cases hidle
  | reaping => exact keeps_plain _ rfl rfl h
  | left group => exact ⟨keeps_plain _ rfl rfl h.1, h.2.cons _⟩
  | refreshed => exact ⟨keeps_plain _ rfl rfl h.1, h.2⟩
  | heard => cases hidle

theorem tended_signalled {a : Phase} (group signal : ℕ) (hdue : a.Due w.supervisor group)
    (h : Tended launch w₀ t₀ a w t) :
    Tended launch w₀ t₀ a w (⟨.signalled group signal, w⟩ :: t) := by
  rcases hdue with rfl | ⟨rfl, cleanup, hm, rfl⟩
  · exact ⟨keeps_signalled group signal h.1 h.2, h.2.cons _⟩
  · exact keeps_signalled _ signal h (mayClean_of_pending h.1 cleanup hm)

/-- A list of groups that may be cleaned up takes the place of the cleanups. -/
theorem keeps_cleanups (cleanups : List PendingCleanup) (h : Keeps launch none w₀ t₀ w t)
    (hclean : ∀ cleanup ∈ cleanups, MayClean w.supervisor t cleanup.group) :
    Keeps launch none w₀ t₀ { w with supervisor := { w.supervisor with cleanups := cleanups } } t :=
  ⟨inv_withCleanups cleanups h.1 hclean,
    quiet_update _ h.2 rfl (fun _ old hp hd => ⟨old, hp, hd, rfl, rfl⟩) rfl fun hf => hf⟩

theorem tended_scheduled (cleanup : PendingCleanup)
    (h : Tended launch w₀ t₀ (.left cleanup.group) w t) :
    Keeps launch none w₀ t₀ { w with supervisor := { w.supervisor with
      cleanups := w.supervisor.cleanups ++ [cleanup] } } t := by
  refine keeps_cleanups _ h.1 fun c hc => ?_
  rcases List.mem_append.mp hc with hc | hc
  · exact mayClean_of_pending h.1.1 c hc
  · rw [List.mem_singleton.mp hc]
    exact h.2

theorem tended_swept (kept : List PendingCleanup) (h : Keeps launch none w₀ t₀ w t)
    (hkept : ∀ left ∈ kept, ∃ cleanup ∈ w.supervisor.cleanups, Remnant cleanup left) :
    Keeps launch none w₀ t₀ { w with supervisor := { w.supervisor with cleanups := kept } } t := by
  refine keeps_cleanups kept h fun left hl => ?_
  obtain ⟨cleanup, hm, hremnant⟩ := hkept left hl
  rw [hremnant]
  exact mayClean_of_pending h.1 cleanup hm

theorem mayClean_of_markExited (i status : ℕ) (process : ManagedProcess)
    (h : Inv launch (some i) w t) (hp : w.supervisor.processes[i]? = some process)
    (ha : process.alive = true) (entry : Entry) :
    MayClean (w.supervisor.markExited i status true process) (entry :: t) process.pid := by
  have hi : i < w.supervisor.processes.length := (List.getElem?_eq_some_iff.mp hp).1
  have hat : (w.supervisor.markExited i status true process).processes[i]? = some { process with
      alive := false
      exitStatus := some status
      residualGroup := true
      probeCancel := process.probeCancel.map fun _ => true } := List.getElem?_set_self hi
  refine ⟨⟨i, _, hat, rfl, Or.inl rfl⟩, fun other hm hk hb hpid => ?_,
    Or.inr (Or.inr (Or.inl ⟨_, List.mem_of_getElem? hat, rfl⟩))⟩
  rcases mem_set_cases hm with rfl | ⟨j, hne, hj⟩
  · cases hb
  · exact hne (h.distinct i j process other hp hj ha hb hpid.symm)

theorem keeps_markExited (i status : ℕ) (residual : Bool) (process : ManagedProcess)
    (h : Keeps launch (some i) w₀ t₀ w t) (hp : w.supervisor.processes[i]? = some process)
    (ha : process.alive = true)
    (hgroup : residual = false → w.kernel.groupExists process.pid = false) :
    Keeps launch none w₀ t₀
      { w with supervisor := w.supervisor.markExited i status residual process }
      (⟨.exited i status residual,
        { w with supervisor := w.supervisor.markExited i status residual process }⟩ :: t) := by
  refine ⟨inv_markExited i status residual process h.1 hp ha fun hr group hg => ?_,
    quiet_entry _ rfl ?_⟩
  · obtain ⟨hnumber, hgen, -⟩ := h.1.groups i group process hg hp
    exact Kernel.vanished_of_not_exists hgen (by rw [hnumber]; exact hgroup hr)
  · exact quiet_set i process _ _ h.2 hp ha rfl rfl (markExited_failure _ _ _ _ _)

theorem tended_exited (i status : ℕ) (process : ManagedProcess)
    (hp : w.supervisor.processes[i]? = some process) (ha : process.alive = true)
    (h : Tended launch w₀ t₀ (.reaping i process.pid) w t) :
    Tended launch w₀ t₀
      (if w.kernel.groupExists process.pid then .left process.pid else .resting)
      { w with supervisor :=
          w.supervisor.markExited i status (w.kernel.groupExists process.pid) process }
      (⟨.exited i status (w.kernel.groupExists process.pid),
        { w with supervisor :=
            w.supervisor.markExited i status (w.kernel.groupExists process.pid) process }⟩ ::
          t) := by
  have hkeeps := keeps_markExited i status (w.kernel.groupExists process.pid) process h hp ha
    fun hgone => hgone
  split
  · rename_i hleft
    rw [hleft] at hkeeps ⊢
    exact ⟨hkeeps, mayClean_of_markExited i status process h.1 hp ha _⟩
  · exact hkeeps

theorem keeps_observed (i : ℕ) (process : ManagedProcess) (state : ProbeState) (success : Bool)
    (h : Keeps launch none w₀ t₀ w t) (hp : w.supervisor.processes[i]? = some process)
    (ha : process.alive = true) (hprobe : process.probe = some state) :
    Keeps launch none w₀ t₀
      { w with supervisor := w.supervisor.observed i process state success }
      (⟨.probed i success,
        { w with supervisor := w.supervisor.observed i process state success }⟩ :: t) :=
  ⟨inv_observed i process state success h.1 hp ha hprobe,
    quiet_entry _ rfl (quiet_set i process _ _ h.2 hp ha rfl rfl fun hf => hf)⟩

/-- No step takes the invariant away. -/
theorem tended_step {a b : Phase} {w' : World} {t' : Trace} (hstep : Step a w t b w' t')
    (h : Tended launch w₀ t₀ a w t) : Tended launch w₀ t₀ b w' t' := by
  cases hstep with
  | turn _ _ _ events hidle => exact tended_turn _ hidle (Kernel.moves_applyAll _ events) h
  | receive _ _ event rest => exact keeps_stable w t _ h (Kernel.moves_channel w.kernel rest)
  | release _ _ pid status => exact ⟨w, h, rfl⟩
  | observed _ _ _ group hidle => exact tended_observed group _ hidle h
  | signalled _ _ _ group signal hdue => exact tended_signalled group signal hdue h
  | abandoned _ _ group => exact keeps_plain _ rfl rfl h
  | signalObserved => exact ⟨t, rfl, h⟩
  | exited _ _ older index status process hprocess halive =>
    exact tended_exited index status process hprocess halive h
  | probed _ _ index process probe success hprocess halive hprobe =>
    exact keeps_observed index process probe success h hprocess halive hprobe
  | scheduled _ _ index process cleanup => exact tended_scheduled cleanup h
  | swept _ during before kept hquiet hkept => exact tended_swept kept h hkept
  | refreshed =>
    exact ⟨⟨inv_updateReady h.1, quiet_update _ h.2 rfl
      (fun _ old hp hd => ⟨old, hp, hd, rfl, rfl⟩) rfl fun hf => hf⟩, rfl⟩

theorem tended_follows {a b : Phase} (hfollows : Phase.Follows w a b)
    (h : Tended launch w₀ t₀ a w t) : Tended launch w₀ t₀ b w t := by
  cases hfollows with
  | unknown pid hnone =>
    obtain ⟨before, hkeep, rfl⟩ := h
    exact ⟨inv_release_other pid hkeep.1 hnone, quiet_kernel _ hkeep.2⟩
  | found index pid hfound =>
    obtain ⟨before, hkeep, rfl⟩ := h
    obtain ⟨process, hp, halive, hpid⟩ := hfound
    exact ⟨inv_release index pid process hkeep.1 hp halive hpid, quiet_kernel _ hkeep.2⟩
  | relieved group => exact h.1
  | unheard => exact h.1

/-! ### Signals -/

/-- The entry of a completed step, behind an update of the flag. -/
theorem inv_finished (step : SupervisorStep) (h : Inv launch none w t)
    (hready : w.supervisor.ready = w.supervisor.readiness) :
    Inv launch none w (⟨.finished step, w⟩ :: t) :=
  inv_record _ rfl (by rw [Required, hready]; exact readiness_iff h) h

/-- What `drive` leaves when it has seen the first signal: it is the last thing that was
recorded, and the state has not changed since. -/
structure Observed (launch : List CommonProcess) (signal : ℕ) (w : World) (t : Trace) : Prop where
  safe : Safe launch t
  observed : ∃ before, Inv launch none w before ∧
    t = ⟨.finished .drive, w⟩ :: ⟨.signalObserved signal, w⟩ :: before

theorem mem_of_observed {signal : ℕ} (h : Observed launch signal w t) :
    Action.signalObserved signal ∈ acts t := by
  obtain ⟨before, -, rfl⟩ := h.observed
  exact List.mem_cons_of_mem _ List.mem_cons_self

theorem running_of_observed {signal : ℕ} (h : Observed launch signal w t) :
    ∀ number, Action.shutdownBegan number ∉ acts t := by
  obtain ⟨before, hinv, rfl⟩ := h.observed
  intro number hm
  exact hinv.running number (mem_acts_of_ne (by simp) (mem_acts_of_ne (by simp) hm))

theorem only_of_observed {signal : ℕ} (h : Observed launch signal w t) :
    ∀ entry ∈ t, ∀ number, entry.action = .signalObserved number → entry.world = w := by
  obtain ⟨before, hinv, rfl⟩ := h.observed
  intro entry he number hs
  rcases List.mem_cons.mp he with rfl | he
  · cases hs
  rcases List.mem_cons.mp he with rfl | he
  · rfl
  · exact absurd (hs ▸ List.mem_map_of_mem he) (hinv.unheard number)

theorem entryOk_signalObserved (signal : ℕ) (h : Inv launch none w t) :
    EntryOk launch ⟨.signalObserved signal, w⟩ t :=
  ⟨h.state, trivial, heeds_of_unheard _ h.unheard⟩

theorem tended_stop (a : Phase) (w : World) (t : Trace) (h : Tended launch w₀ t₀ a w t) :
    Stopped launch w t := by
  cases a with
  | resting => exact h.1.safe
  | released pid =>
    obtain ⟨before, hkeep, -⟩ := h
    exact hkeep.1.safe
  | reaping => exact h.1.safe
  | left group => exact h.1.1.safe
  | refreshed => exact h.1.1.safe
  | heard signal =>
    obtain ⟨before, rfl, h⟩ := h
    exact (always_cons _ _ _).mpr ⟨entryOk_signalObserved signal h.1.1, h.1.1.safe⟩

/-- `drive` keeps the invariant, wherever a run stops in it. -/
theorem tended_kept (launch : List CommonProcess) (w₀ : World) (t₀ : Trace) :
    KeptIn (.triples (Stopped launch)) (Tended launch w₀ t₀) where
  step := fun hstep h => ⟨trivial, tended_step hstep h⟩
  follow := tended_follows
  stop := tended_stop
  failed := fun _ w t h => tended_stop .resting w t h

/-- A signal that is observed changes nothing that the flag is about. -/
theorem readyNow_signalObserved (signal : ℕ) :
    ReadyNow launch (⟨.signalObserved signal, w⟩ :: t) ↔ ReadyNow launch t := by
  have hdeliveries : ∀ i, deliveries i (⟨.signalObserved signal, w⟩ :: t) = deliveries i t :=
    fun _ => rfl
  simp only [ReadyNow, HasExited, mem_acts_cons, reduceCtorEq, false_or, hdeliveries]

theorem observed_finished (signal : ℕ) (h : Refreshed launch w₀ t₀ w t) :
    Observed launch signal w (⟨.finished .drive, w⟩ :: ⟨.signalObserved signal, w⟩ :: t) where
  safe := by
    have hinv := h.1.1
    have hobserved := entryOk_signalObserved signal hinv
    have hfinished : EntryOk launch ⟨.finished .drive, w⟩ (⟨.signalObserved signal, w⟩ :: t) := by
      refine ⟨stateOk_cons _ hinv.state rfl (by simp), ?_, ?_⟩
      · rw [Required, h.2, readyNow_signalObserved]
        exact readiness_iff hinv
      · exact heeds_of_split [] (fun _ => List.not_mem_nil) hinv.unheard .driven
    exact (always_cons _ _ _).mpr ⟨hfinished, (always_cons _ _ _).mpr ⟨hobserved, hinv.safe⟩⟩
  observed := ⟨t, h.1.1, rfl⟩

theorem triple_drive (w₀ : World) (t₀ : Trace) (wait : ℕ) :
    Program.Triple (Keeps launch none w₀ t₀) (drive wait)
      (Unless (Observed launch) (Keeps launch none w₀ t₀)) (Stopped launch) := by
  refine holds_drive_kept (tended_kept launch w₀ t₀) wait fun signal w t h _ => ⟨trivial, ?_⟩
  cases signal with
  | none => exact ⟨inv_finished .drive h.1.1 h.2, quiet_entry _ rfl h.1.2⟩
  | some signal =>
    obtain ⟨before, rfl, h⟩ := h
    exact observed_finished signal h

/-! ### Cleanups on their own -/

theorem triple_scheduleCleanup (w₀ : World) (t₀ : Trace) (group : ℕ) :
    Program.Triple (fun w t => Keeps launch none w₀ t₀ w t ∧ MayClean w.supervisor t group)
      (scheduleCleanup group) (fun _ => Keeps launch none w₀ t₀) (Stopped launch) := by
  have hsteady := (tended_kept launch w₀ t₀).steady (.left group) rfl
  refine holds_scheduleCleanup group hsteady (A := fun _ => Tended launch w₀ t₀ (.left group))
    (fun w t h => ⟨trivial, tended_observed group _ rfl h⟩) (fun _ w t _ h => h.1) hsteady
    (fun w t _ h => ⟨trivial, tended_signalled group sigterm (Or.inl rfl) h⟩) hsteady
    fun w t h => ⟨trivial, tended_scheduled (dueCleanup group w.kernel.clock) h⟩

end Sandcamp.Campd
