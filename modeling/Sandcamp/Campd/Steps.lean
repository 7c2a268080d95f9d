import Sandcamp.Campd.History
import Sandcamp.Campd.RoundRules

/-!
# What a round of supervision can do

`Step` lists every interaction and every update that `drive` is made of, each with the point of
`drive` at which it happens (`Phase`). A fact that each step keeps is kept by every part of
`drive`, wherever a run stops in it, and what the steps can do is what `drive` can do.
-/

namespace Sandcamp.Campd
open Foundations

/-! ### Steps -/

/-- Actions of reaping, of delivering probe results and of cleaning up. -/
def Action.quiet : Action → Bool
  | .exited .. | .probed .. | .groupObserved .. | .signalled .. | .cleanupAbandoned _
  | .finished _ => true
  | _ => false

/-- What becomes of an entry in a sweep: it stays, its group is found gone, or it is given up
after its group was killed. -/
def Swept (kept : List PendingCleanup) (during : Trace) (cleanup : PendingCleanup) : Prop :=
  (∃ left ∈ kept, Remnant cleanup left ∧ (left.killed = true → cleanup.killed = true ∨
    Action.signalled cleanup.group sigkill ∈ acts during)) ∨
  Action.groupObserved cleanup.group false ∈ acts during ∨
  Action.signalled cleanup.group sigkill ∈ acts during ∨ cleanup.killed = true ∨
  cleanup.giveUpAt < cleanup.killAt

/-- Where `drive` has come to. -/
inductive Phase where
  | resting
  /-- `waitpid` has returned this number. -/
  | released (pid : ℕ)
  /-- It is the number of process `index`, which is not on record as reaped. -/
  | reaping (index pid : ℕ)
  /-- The process that has just been reaped has left this group. -/
  | left (group : ℕ)
  /-- The flag has just been refreshed. -/
  | refreshed
  | heard (signal : ℕ)

/-- The surroundings may have their turn. -/
def Phase.idle : Phase → Bool
  | .released _ | .heard _ => false
  | _ => true

/-- The group may be signalled: the process that left it has just been reaped, or it has a
cleanup. -/
def Phase.Due (a : Phase) (sup : Supervisor) (group : ℕ) : Prop :=
  a = .left group ∨ a = .resting ∧ sup.Pending group

inductive Step : Phase → World → Trace → Phase → World → Trace → Prop
  | turn (a : Phase) (w : World) (t : Trace) (events : List KernelEvent) (hidle : a.idle = true) :
      Step a w t a { w with kernel := w.kernel.applyAll events } t
  | receive (w : World) (t : Trace) (event : ProbeEvent) (rest : List ProbeEvent)
      (hchannel : w.kernel.channel = event :: rest) :
      Step .resting w t .resting { w with kernel := { w.kernel with channel := rest } } t
  | release (w : World) (t : Trace) (pid status : ℕ) (hzombie : (pid, status) ∈ w.kernel.zombies) :
      Step .resting w t (.released pid) { w with kernel := w.kernel.release pid } t
  | observed (a : Phase) (w : World) (t : Trace) (group : ℕ) (hidle : a.idle = true) :
      Step a w t a w (⟨.groupObserved group (w.kernel.groupExists group), w⟩ :: t)
  | signalled (a : Phase) (w : World) (t : Trace) (group signal : ℕ)
      (hdue : a.Due w.supervisor group) : Step a w t a w (⟨.signalled group signal, w⟩ :: t)
  | abandoned (w : World) (t : Trace) (group : ℕ) :
      Step .resting w t .resting w (⟨.cleanupAbandoned group, w⟩ :: t)
  | signalObserved (w : World) (t : Trace) (hsome : w.kernel.receivedSignal ≠ 0) :
      Step .refreshed w t (.heard w.kernel.receivedSignal) w
        (⟨.signalObserved w.kernel.receivedSignal, w⟩ :: t)
  /-- The process is found in the list, and its group has just been asked for. -/
  | exited (w : World) (t older : Trace) (index status : ℕ) (process : ManagedProcess)
      (hprocess : w.supervisor.processes[index]? = some process) (halive : process.alive = true)
      (hasked : t = ⟨.groupObserved process.pid (w.kernel.groupExists process.pid), w⟩ :: older) :
      Step (.reaping index process.pid) w t
        (if w.kernel.groupExists process.pid then .left process.pid else .resting)
        { w with supervisor :=
            w.supervisor.markExited index status (w.kernel.groupExists process.pid) process }
        (⟨.exited index status (w.kernel.groupExists process.pid),
          { w with supervisor :=
              w.supervisor.markExited index status (w.kernel.groupExists process.pid) process }⟩
            :: t)
  | probed (w : World) (t : Trace) (index : ℕ) (process : ManagedProcess) (probe : ProbeState)
      (success : Bool) (hprocess : w.supervisor.processes[index]? = some process)
      (halive : process.alive = true) (hprobe : process.probe = some probe) :
      Step .resting w t .resting
        { w with supervisor := { w.supervisor with
            processes := w.supervisor.processes.set index
              { process with probe := some (probe.observe success).1 } } }
        (⟨.probed index success, { w with supervisor := { w.supervisor with
            processes := w.supervisor.processes.set index
              { process with probe := some (probe.observe success).1 } } }⟩ :: t)
  /-- The group of a process that has just been reaped. -/
  | scheduled (w : World) (t : Trace) (index : ℕ) (process : ManagedProcess)
      (cleanup : PendingCleanup) (hprocess : w.supervisor.processes[index]? = some process)
      (hreaped : ∃ status rest, acts t = .signalled cleanup.group sigterm ::
        .groupObserved cleanup.group true :: .exited index status true :: rest)
      (hdead : process.alive = false) (hgroup : cleanup.group = process.pid)
      (hfresh : cleanup.killed = false) (hordered : cleanup.killAt ≤ cleanup.giveUpAt)
      (hfree : ¬w.supervisor.Pending cleanup.group) :
      Step (.left cleanup.group) w t .resting { w with supervisor := { w.supervisor with
        cleanups := w.supervisor.cleanups ++ [cleanup] } } t
  | swept (w : World) (during before : Trace) (kept : List PendingCleanup)
      (hquiet : ∀ entry ∈ during, entry.action.quiet = true)
      (hkept : ∀ left ∈ kept, ∃ cleanup ∈ w.supervisor.cleanups, Remnant cleanup left)
      (hswept : ∀ cleanup ∈ w.supervisor.cleanups, Swept kept during cleanup) :
      Step .resting w (during ++ before) .resting
        { w with supervisor := { w.supervisor with cleanups := kept } } (during ++ before)
  | refreshed (w : World) (t : Trace) :
      Step .resting w t .refreshed
        { w with supervisor := { w.supervisor with ready := w.supervisor.readiness } } t

/-- What `drive` concludes from the state without a step. -/
inductive Phase.Follows (w : World) : Phase → Phase → Prop
  | unknown (pid : ℕ) (hnone : ∀ process ∈ w.supervisor.processes, process.alive = true →
      process.pid ≠ pid) : Follows w (.released pid) .resting
  | found (index pid : ℕ) (hfound : Found index pid w.supervisor) :
      Follows w (.released pid) (.reaping index pid)
  | relieved (group : ℕ) : Follows w (.left group) .resting
  | unheard : Follows w .refreshed .resting

/-- In the logic, every step leads on from what holds in its phase. -/
structure KeptIn (L : Program.Logic World Turn Entry (Failure RuntimeError))
    (P : Phase → Program.Assertion World Entry) : Prop where
  step : ∀ {a b w t w' t'}, Step a w t b w' t' → P a w t → Program.Leads L.step (P b) w t w' t'
  follow : ∀ {a b w t}, Phase.Follows w a b → P a w t → P b w t
  stop : ∀ a w t, P a w t → L.stop w t
  failed : ∀ error w t, P .resting w t → L.raised (waitError error) w t

/-! ### The parts of `drive` -/

section Parts
variable {L : Program.Logic World Turn Entry (Failure RuntimeError)}
  {P : Phase → Program.Assertion World Entry} (hP : KeptIn L P)
include hP

theorem KeptIn.steady (a : Phase) (hidle : a.idle = true) : SteadyIn L (P a) where
  turn := fun w t events h => hP.step (.turn a w t events hidle) h
  stop := hP.stop a

/-- A fact about the supervisor and the trace stays beside what is kept. -/
theorem KeptIn.steadyAnd (a : Phase) (hidle : a.idle = true) (F : Supervisor → Trace → Prop) :
    SteadyIn L fun w t => P a w t ∧ F w.supervisor t where
  turn := fun w t events h =>
    ⟨(hP.step (.turn a w t events hidle) h.1).step, (hP.step (.turn a w t events hidle) h.1).post,
      h.2⟩
  stop := fun w t h => hP.stop a w t h.1

/-- `index` stands for a process of this group that has been reaped; `since` is what was
recorded after that. -/
def Reaped (index group : ℕ) (since : List Action) (sup : Supervisor) (t : Trace) : Prop :=
  (∃ process, sup.processes[index]? = some process ∧ process.alive = false ∧
    process.pid = group) ∧ ∃ status rest, acts t = since ++ .exited index status true :: rest

omit hP in
theorem Reaped.cons {index group : ℕ} {since : List Action} {sup : Supervisor} {t : Trace}
    (entry : Entry) (h : Reaped index group since sup t) :
    Reaped index group (entry.action :: since) sup (entry :: t) := by
  obtain ⟨hprocess, status, rest, hacts⟩ := h
  refine ⟨hprocess, status, rest, ?_⟩
  rw [List.cons_append, ← hacts]
  rfl

theorem kept_scheduleCleanup (index group : ℕ) :
    L.Holds (fun w t => P (.left group) w t ∧ Reaped index group [] w.supervisor t)
      (scheduleCleanup group) fun _ => P .resting := by
  have hsteady : ∀ F : Supervisor → Trace → Prop,
      SteadyIn L fun w t => P (.left group) w t ∧ F w.supervisor t :=
    hP.steadyAnd (.left group) rfl
  refine holds_scheduleCleanup group (hsteady (Reaped index group []))
    (A := fun alive w t => P (.left group) w t ∧
      Reaped index group [.groupObserved group alive] w.supervisor t)
    (S := fun w t => P (.left group) w t ∧ ¬w.supervisor.Pending group ∧
      Reaped index group [.signalled group sigterm, .groupObserved group true] w.supervisor t)
    (fun w t h => ?_) (fun alive w t _ h => hP.follow (.relieved group) h.1) (hsteady _)
    (fun w t hfree h => ?_)
    (hsteady fun sup t => ¬sup.Pending group ∧
      Reaped index group [.signalled group sigterm, .groupObserved group true] sup t)
    fun w t h => ?_
  · have hasked := hP.step (.observed _ w t group rfl) h.1
    exact ⟨hasked.step, hasked.post, h.2.cons _⟩
  · have hsignalled := hP.step (.signalled _ w t group sigterm (Or.inl rfl)) h.1
    exact ⟨hsignalled.step, hsignalled.post, hfree, h.2.cons _⟩
  · obtain ⟨hp, hfree, ⟨process, hprocess, hdead, hpid⟩, hacts⟩ := h
    exact hP.step (.scheduled w t index process (dueCleanup group w.kernel.clock) hprocess hacts
      hdead hpid.symm rfl (Nat.le_add_right _ _) hfree) hp

/-! ### Sweeping -/

omit hP in
theorem Swept.mono {kept kept' : List PendingCleanup} {during : Trace} {cleanup : PendingCleanup}
    (new : Trace) (hsub : ∀ left ∈ kept, left ∈ kept') (h : Swept kept during cleanup) :
    Swept kept' (new ++ during) cleanup := by
  rcases h with ⟨left, hm, hremnant, hkilled⟩ | hgone | hsignalled | hrest
  · refine Or.inl ⟨left, hsub left hm, hremnant, fun hk => (hkilled hk).imp_right fun hs => ?_⟩
    exact mem_acts_of_mem new hs
  · exact Or.inr (Or.inl (mem_acts_of_mem new hgone))
  · exact Or.inr (Or.inr (Or.inl (mem_acts_of_mem new hsignalled)))
  · exact Or.inr (Or.inr (Or.inr hrest))

/-- While `process_cleanups` walks the list: what has become of the entries behind it, and
what the walk has recorded. -/
def Sweeping (P : Program.Assertion World Entry) (cleanups done kept : List PendingCleanup)
    (F : Trace → Prop) : Program.Assertion World Entry := fun w t =>
  P w t ∧ w.supervisor.cleanups = cleanups ∧ ∃ during before, t = during ++ before ∧ F during ∧
    (∀ entry ∈ during, entry.action.quiet = true) ∧
    (∀ left ∈ kept, ∃ cleanup ∈ cleanups, Remnant cleanup left) ∧
    ∀ cleanup ∈ done, Swept kept during cleanup

variable {cleanups done kept : List PendingCleanup} {F G : Trace → Prop}

theorem sweeping_steady : SteadyIn L (Sweeping (P .resting) cleanups done kept F) :=
  hP.steadyAnd .resting rfl fun sup t => sup.cleanups = cleanups ∧ ∃ during before,
    t = during ++ before ∧ F during ∧ (∀ entry ∈ during, entry.action.quiet = true) ∧
      (∀ left ∈ kept, ∃ cleanup ∈ cleanups, Remnant cleanup left) ∧
      ∀ cleanup ∈ done, Swept kept during cleanup

omit hP in
theorem sweeping_cons {P : Program.Assertion World Entry} {w : World} {t : Trace} (entry : Entry)
    (hquiet : entry.action.quiet = true) (h : Sweeping P cleanups done kept F w t)
    (hp : P w (entry :: t)) (hG : ∀ during, F during → G (entry :: during)) :
    Sweeping P cleanups done kept G w (entry :: t) := by
  obtain ⟨-, hcleanups, during, before, rfl, hF, hduring, hremnants, hswept⟩ := h
  refine ⟨hp, hcleanups, entry :: during, before, rfl, hG during hF, fun e he => ?_, hremnants,
    fun cleanup hm => (hswept cleanup hm).mono [entry] fun _ h => h⟩
  rcases List.mem_cons.mp he with rfl | he
  · exact hquiet
  · exact hduring e he

omit hP in
theorem sweeping_done {P : Program.Assertion World Entry} {w : World} {t : Trace}
    (cleanup : PendingCleanup) (hmem : cleanup ∈ cleanups) (left : Option PendingCleanup)
    (h : Sweeping P cleanups done kept F w t)
    (hleft : ∀ l, left = some l → Remnant cleanup l)
    (hF : ∀ during, F during → Swept (kept ++ left.toList) during cleanup) :
    Sweeping P cleanups (done ++ [cleanup]) (kept ++ left.toList) (fun _ => True) w t := by
  obtain ⟨hp, hcleanups, during, before, rfl, hduring, hquiet, hremnants, hswept⟩ := h
  refine ⟨hp, hcleanups, during, before, rfl, trivial, hquiet, ?_, ?_⟩
  · intro l hl
    rcases List.mem_append.mp hl with hl | hl
    · exact hremnants l hl
    · exact ⟨cleanup, hmem, hleft l (Option.mem_toList.mp hl)⟩
  · intro c hc
    rcases List.mem_append.mp hc with hc | hc
    · exact (hswept c hc).mono [] fun l hl => List.mem_append_left _ hl
    · rw [List.mem_singleton.mp hc]
      exact hF during hduring

/-- What `killOverdue` leaves of an entry. -/
def Overdue (now : ℕ) (cleanup left : PendingCleanup) (during : Trace) : Prop :=
  (left.killed = true → cleanup.killed = true ∨
    Action.signalled cleanup.group sigkill ∈ acts during) ∧
  (cleanup.killAt ≤ now → left.killed = true)

omit hP in
/-- An entry whose time is over was killed, or it is out of order. -/
theorem swept_overdue {now : ℕ} {cleanup left : PendingCleanup} {during : Trace}
    (hremnant : Remnant cleanup left) (hover : left.giveUpAt ≤ now)
    (h : Overdue now cleanup left during) : Swept kept during cleanup := by
  have hsame : left.giveUpAt = cleanup.giveUpAt := by rw [hremnant]
  by_cases hlate : cleanup.killAt ≤ now
  · rcases h.1 (h.2 hlate) with hkilled | hsignalled
    · exact Or.inr (Or.inr (Or.inr (Or.inl hkilled)))
    · exact Or.inr (Or.inr (Or.inl hsignalled))
  · exact Or.inr (Or.inr (Or.inr (Or.inr (by omega))))

theorem kept_processCleanup (now : ℕ) (cleanup : PendingCleanup) (hmem : cleanup ∈ cleanups) :
    L.Holds (Sweeping (P .resting) cleanups done kept fun _ => True) (processCleanup now cleanup)
      fun left => Sweeping (P .resting) cleanups (done ++ [cleanup]) (kept ++ left.toList)
        fun _ => True := by
  refine holds_processCleanup now cleanup (sweeping_steady hP)
    (A := fun alive => Sweeping (P .resting) cleanups done kept fun during =>
      alive = false → Action.groupObserved cleanup.group false ∈ acts during)
    (K := fun left => Sweeping (P .resting) cleanups done kept (Overdue now cleanup left))
    (fun w t h => ?_) (fun w t h => ?_) (sweeping_steady hP) (fun _ _ w t h => ?_)
    (fun hspared w t h => ?_) (fun left hremnant hover w t h => ?_)
    fun left hremnant _ w t h => ?_
  · have hasked := hP.step (.observed _ w t cleanup.group rfl) h.1
    refine ⟨hasked.step, sweeping_cons _ rfl h hasked.post fun during _ halive => ?_⟩
    rw [halive]
    exact (mem_acts_cons _ _ _).mpr (Or.inl rfl)
  · exact sweeping_done cleanup hmem none h (fun _ hl => by cases hl) fun during hduring =>
      Or.inr (Or.inl (hduring rfl))
  · have hpending : w.supervisor.Pending cleanup.group := ⟨cleanup, h.2.1 ▸ hmem, rfl⟩
    have hkilled := hP.step (.signalled _ w t cleanup.group sigkill (Or.inr ⟨rfl, hpending⟩)) h.1
    refine ⟨hkilled.step, sweeping_cons _ rfl h hkilled.post fun during _ => ?_⟩
    exact ⟨fun _ => Or.inr ((mem_acts_cons _ _ _).mpr (Or.inl rfl)), fun _ => rfl⟩
  · obtain ⟨hp, hcleanups, during, before, ht, -, hrest⟩ := h
    exact ⟨hp, hcleanups, during, before, ht, ⟨Or.inl, hspared⟩, hrest⟩
  · have habandoned := hP.step (.abandoned w t left.group) h.1
    refine ⟨habandoned.step, sweeping_done cleanup hmem none (sweeping_cons
      (G := Overdue now cleanup left) _ rfl h habandoned.post fun during hduring => ?_)
      (fun _ hl => by cases hl) fun during hduring => swept_overdue hremnant hover hduring⟩
    exact ⟨fun hk => (hduring.1 hk).imp_right fun hs => mem_acts_of_mem [_] hs, hduring.2⟩
  · refine sweeping_done cleanup hmem (some left) h (fun l hl => ?_) fun during hduring => ?_
    · obtain rfl := Option.some.inj hl
      exact hremnant
    · exact Or.inl ⟨left, by simp, hremnant, hduring.1⟩

theorem kept_processCleanups : L.Holds (P .resting) processCleanups fun _ => P .resting := by
  refine holds_processCleanups (hP.steady .resting rfl)
    (I := fun _ cleanups done kept => Sweeping (P .resting) cleanups done kept fun _ => True)
    (fun w t h => ?_) (fun now cleanups done kept cleanup rest hsplit => ?_)
    fun now cleanups kept w t h => ?_
  · exact ⟨h, rfl, [], t, rfl, trivial, by simp, by simp, by simp⟩
  · exact kept_processCleanup hP now cleanup (hsplit ▸ List.mem_append_right _ List.mem_cons_self)
  · obtain ⟨hp, rfl, during, before, rfl, -, hquiet, hremnants, hswept⟩ := h
    exact hP.step (.swept w during before kept hquiet hremnants hswept) hp

/-! ### Reaping -/

/-- What `waitpid(-1)` leaves, by its result. -/
def AfterWait (P : Phase → Program.Assertion World Entry) :
    Kernel.WaitResult → Program.Assertion World Entry
  | .reaped pid _ => P (.released pid)
  | _ => P .resting

theorem kept_waitAny : L.Holds (P .resting) waitAny (AfterWait P) := by
  refine holds_waitAny (hP.steady .resting rfl) fun w t answer h => ?_
  cases answer with
  | interrupted => exact hP.step (.turn _ w t [] rfl) h
  | failed error => exact hP.step (.turn _ w t [] rfl) h
  | choose n =>
    simp only [Kernel.waitAny]
    split
    · rename_i pid status hzombie
      exact hP.step (.release w t pid status (List.mem_of_getElem? hzombie)) h
    · split
      · exact hP.step (.turn _ w t [] rfl) h
      · exact hP.step (.turn _ w t [] rfl) h

/-- The group of the found process has just been asked for. -/
def Asked (P : Program.Assertion World Entry) (index pid : ℕ) (residual : Bool) :
    Program.Assertion World Entry := fun w t =>
  P w t ∧ Found index pid w.supervisor ∧ residual = w.kernel.groupExists pid ∧
    ∃ older, t = ⟨.groupObserved pid residual, w⟩ :: older

/-- The exit is on record, and a group that was left is to be cleaned up. -/
def Noted (P : Phase → Program.Assertion World Entry) (index pid : ℕ) :
    Bool → Program.Assertion World Entry
  | true => fun w t => P (.left pid) w t ∧ Reaped index pid [] w.supervisor t
  | false => P .resting

theorem kept_markExited (index pid status : ℕ) (residual : Bool) (process : ManagedProcess)
    {w : World} {t : Trace} (h : Asked (P (.reaping index pid)) index pid residual w t)
    (hprocess : w.supervisor.processes[index]? = some process) (halive : process.alive = true)
    (hpid : process.pid = pid) :
    Program.Leads L.step (Noted P index pid residual) w t
      { w with supervisor := w.supervisor.markExited index status residual process }
      (⟨.exited index status residual,
        { w with supervisor := w.supervisor.markExited index status residual process }⟩ :: t) := by
  obtain ⟨hp, -, rfl, older, ht⟩ := h
  have hlt : index < w.supervisor.processes.length := (List.getElem?_eq_some_iff.mp hprocess).1
  subst hpid
  have hexited := hP.step (.exited w t older index status process hprocess halive ht) hp
  refine ⟨hexited.step, ?_⟩
  have hpost := hexited.post
  cases hresidual : w.kernel.groupExists process.pid with
  | false =>
    rw [hresidual] at hpost
    exact hpost
  | true =>
    rw [hresidual] at hpost
    exact ⟨hpost, ⟨_, List.getElem?_set_self hlt, rfl, rfl⟩, status, acts t, rfl⟩

theorem kept_reapFound (index pid status : ℕ) :
    L.Holds (fun w t => P (.reaping index pid) w t ∧ Found index pid w.supervisor)
      (reapFound index pid status) fun _ => P .resting := by
  refine holds_reapFound index pid status
    (hP.steadyAnd (.reaping index pid) rfl fun sup _ => Found index pid sup)
    (A := Asked (P (.reaping index pid)) index pid) (D := Noted P index pid) (fun w t h => ?_)
    (fun _ _ _ h => h.2.1) (fun residual process w t hprocess halive hpid h =>
      kept_markExited hP index pid status residual process h hprocess halive hpid)
    (kept_scheduleCleanup hP index pid) fun _ _ h => h
  have hasked := hP.step (.observed _ w t pid rfl) h.1
  exact ⟨hasked.step, hasked.post, h.2, rfl, t, rfl⟩

theorem kept_reapAvailable : L.Holds (P .resting) reapAvailable fun _ => P .resting := by
  refine holds_reapAvailable (kept_waitAny hP) (fun pid status => ?_) (fun result hrest w t h => ?_)
    hP.failed (hP.stop .resting)
  · exact holds_reapProcess pid status
      (fun w t hnone h => hP.follow (.unknown pid hnone) h)
      (fun index w t hfound h => ⟨hP.follow (.found index pid hfound) h, hfound⟩)
      fun index => kept_reapFound hP index pid status
  · cases result with
    | reaped pid status => exact absurd rfl (hrest pid status)
    | running | interrupted | noChildren | failed => exact h

/-! ### `drive` -/

/-- The phase at the end of `drive`, by the signal that was seen. -/
def Phase.last : Option ℕ → Phase
  | none => .refreshed
  | some signal => .heard signal

/-- `received_signal` in `drive`: what it has seen is in the trace. -/
theorem kept_receivedSignal : L.Holds (P .refreshed) receivedSignal fun signal w t =>
    P (Phase.last signal) w t ∧ ∀ number, signal = some number →
      Action.signalObserved number ∈ acts t := by
  refine holds_receivedSignal (hP.steady .refreshed rfl)
    (fun w t h => ⟨h, fun _ hnone => by cases hnone⟩) fun w t h hsome => ?_
  have hobserved := hP.step (.signalObserved w t hsome) h
  refine ⟨hobserved.step, hobserved.post, fun number hnumber => ?_⟩
  obtain rfl := Option.some.inj hnumber
  exact (mem_acts_cons _ _ _).mpr (Or.inl rfl)

/-- `D` is what the entry of the end of `drive` makes of the last phase. -/
theorem holds_drive_kept {D : Option ℕ → Program.Assertion World Entry} (wait : ℕ)
    (hfinished : ∀ signal w t, P (Phase.last signal) w t → (∀ number, signal = some number →
      Action.signalObserved number ∈ acts t) →
      Program.Leads L.step (D signal) w t w (⟨.finished .drive, w⟩ :: t)) :
    L.Holds (P .resting) (drive wait) D := by
  have hreceive : L.Holds (P .resting) tryReceive fun _ => P .resting :=
    holds_tryReceive (hP.steady .resting rfl) (fun _ _ h => h)
      fun w t event rest hchannel h => hP.step (.receive w t event rest hchannel) h
  have happly : ∀ event, L.Holds (P .resting) (applyProbeEvent event) fun _ => P .resting :=
    fun event => holds_applyProbeEvent event fun process state w t hprocess halive hstate h =>
      hP.step (.probed w t event.processIndex process state event.success hprocess halive hstate) h
  exact holds_drive wait (kept_reapAvailable hP) hreceive happly (kept_processCleanups hP)
    (fun w t h => hP.step (.refreshed w t) h) (kept_receivedSignal hP)
    (fun w t h => hP.follow .unheard h.1) (fun signal w t h => hfinished signal w t h.1 h.2)
    (hP.stop .resting)

end Parts

/-! ### Assertions that every step keeps -/

def Kept (P : Program.Assertion World Entry) : Prop :=
  ∀ a w t b w' t', Step a w t b w' t' → P w t → P w' t'

theorem Kept.steady {P : Program.Assertion World Entry} (h : Kept P) : Steady P :=
  fun w t events hp => h _ w t _ _ t (.turn .resting w t events rfl) hp

theorem Kept.inTriples {P : Program.Assertion World Entry} (h : Kept P) :
    KeptIn (.triples P) fun _ => P where
  step := fun hstep hp => ⟨trivial, h _ _ _ _ _ _ hstep hp⟩
  follow := fun _ hp => hp
  stop := fun _ _ _ hp => hp
  failed := fun _ _ _ hp => hp

/-- The entry of the end of `drive` comes on top of a trace for which the assertion holds. -/
def DriveDone (P : Program.Assertion World Entry) (r : Option ℕ) :
    Program.Assertion World Entry := fun w t =>
  ∃ older, t = ⟨.finished .drive, w⟩ :: older ∧ P w older ∧
    ∀ signal, r = some signal → Action.signalObserved signal ∈ acts older

theorem kept_drive {P : Program.Assertion World Entry} (h : Kept P) (wait : ℕ) :
    Program.Triple P (drive wait) (DriveDone P) P :=
  holds_drive_kept h.inTriples wait fun _ _ t hp hseen => ⟨trivial, t, rfl, hp, hseen⟩

end Sandcamp.Campd
