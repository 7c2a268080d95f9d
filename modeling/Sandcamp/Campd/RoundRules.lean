import Sandcamp.Foundations.Logic
import Sandcamp.Campd.Supervisor

/-!
# The rules of a round

One rule for each interaction and for each function that `drive` is made of, in any logic. A rule
names what holds between the statements of its function; to use it is to say what every statement
makes of that.
-/

namespace Sandcamp.Campd
open Foundations

variable {L : Program.Logic World Turn Entry (Failure RuntimeError)} {α : Type}
  {P Q R : Program.Assertion World Entry}

/-! ### Interactions -/

/-- The assertion survives what happens around campd. -/
def Steady (P : Program.Assertion World Entry) : Prop :=
  ∀ w t events, P w t → P { w with kernel := w.kernel.applyAll events } t

/-- It survives what happens around campd, and the logic lets that happen. -/
structure SteadyIn (L : Program.Logic World Turn Entry (Failure RuntimeError))
    (P : Program.Assertion World Entry) : Prop where
  turn : ∀ w t events, P w t →
    Program.Leads L.step P w t { w with kernel := w.kernel.applyAll events } t
  stop : ∀ w t, P w t → L.stop w t

theorem Steady.inTriples {E : Program.Assertion World Entry} (h : Steady P)
    (hstop : ∀ w t, P w t → E w t) : SteadyIn (.triples E) P :=
  ⟨fun w t events hp => ⟨trivial, h w t events hp⟩, hstop⟩

/-- A fact about the supervisor stays beside it. -/
theorem SteadyIn.and (F : Supervisor → Prop) (h : SteadyIn L P) :
    SteadyIn L fun w t => F w.supervisor ∧ P w t where
  turn := fun w t events hp =>
    ⟨(h.turn w t events hp.2).step, hp.1, (h.turn w t events hp.2).post⟩
  stop := fun w t hp => h.stop w t hp.2

theorem holds_turn (h : SteadyIn L P) :
    L.Holds P turn fun r w t => r.1 = w.kernel ∧ P w t := by
  refine L.bind (L.next h.stop) fun turn => ?_
  refine L.bind (L.modify (R := P) _ fun w t hp => h.turn w t turn.events hp) fun _ => ?_
  refine L.bind L.get fun w => ?_
  exact L.pure _ fun _ _ ⟨hw, hp⟩ => ⟨by rw [hw], hp⟩

theorem holds_now (h : SteadyIn L P) : L.Holds P now fun now w t => now = w.kernel.clock ∧ P w t :=
  L.bind (holds_turn h) fun _ => L.pure _ fun _ _ hp => ⟨by rw [hp.1], hp.2⟩

theorem holds_sleep (h : SteadyIn L P) : L.Holds P sleep fun _ => P :=
  L.bind (holds_turn h) fun _ => L.pure _ fun _ _ hp => hp.2

theorem holds_supervisor : L.Holds P supervisor fun sup w t => sup = w.supervisor ∧ P w t :=
  L.bind L.get fun _ => L.pure _ fun _ _ ⟨hw, hp⟩ => ⟨by rw [hw], hp⟩

theorem holds_modifySupervisor (f : Supervisor → Supervisor)
    (hpost : ∀ w t, P w t → Program.Leads L.step R w t { w with supervisor := f w.supervisor } t) :
    L.Holds P (modifySupervisor f) fun _ => R :=
  L.modify _ hpost

theorem holds_processGroupExists {Q : Bool → Program.Assertion World Entry} (group : ℕ)
    (h : SteadyIn L P) (hpost : ∀ w t, P w t →
      Program.Leads L.step (Q (w.kernel.groupExists group)) w t w
        (⟨.groupObserved group (w.kernel.groupExists group), w⟩ :: t)) :
    L.Holds P (processGroupExists group) Q := by
  refine L.bind (holds_turn h) fun r => ?_
  refine L.bind (L.record (R := Q (r.1.groupExists group)) _ fun w t ⟨hr, hp⟩ => ?_) fun _ =>
    L.pure _ fun _ _ hp => hp
  rw [hr]
  exact hpost w t hp

theorem holds_signalGroup (group signal : ℕ) (h : SteadyIn L P)
    (hpost : ∀ w t, P w t → Program.Leads L.step R w t w (⟨.signalled group signal, w⟩ :: t)) :
    L.Holds P (signalGroup group signal) fun _ => R :=
  L.bind (holds_turn h) fun _ => L.record _ fun w t hp => hpost w t hp.2

theorem holds_receivedSignal {Q : Option ℕ → Program.Assertion World Entry} (h : SteadyIn L P)
    (hnone : ∀ w t, P w t → Q none w t)
    (hsome : ∀ w t, P w t → w.kernel.receivedSignal ≠ 0 →
      Program.Leads L.step (Q (some w.kernel.receivedSignal)) w t w
        (⟨.signalObserved w.kernel.receivedSignal, w⟩ :: t)) :
    L.Holds P receivedSignal Q := by
  refine L.bind (holds_turn h) fun r => ?_
  obtain ⟨kernel, answer⟩ := r
  by_cases hzero : kernel.receivedSignal = 0
  · simp only [hzero, if_true]
    exact L.pure _ fun w t hp => hnone w t hp.2
  · simp only [hzero, if_false]
    refine L.bind (L.record (R := Q (some kernel.receivedSignal)) _ fun w t hp => ?_) fun _ =>
      L.pure _ fun _ _ hp => hp
    obtain rfl : kernel = w.kernel := hp.1
    exact hsome w t hp.2 hzero

theorem holds_tryReceive {Q : Option ProbeEvent → Program.Assertion World Entry}
    (h : SteadyIn L P) (hempty : ∀ w t, P w t → Q none w t)
    (htake : ∀ w t event rest, w.kernel.channel = event :: rest → P w t →
      Program.Leads L.step (Q (some event)) w t
        { w with kernel := { w.kernel with channel := rest } } t) :
    L.Holds P tryReceive Q := by
  refine L.bind (holds_turn h) fun r => ?_
  obtain ⟨kernel, answer⟩ := r
  cases hchannel : kernel.channel with
  | nil =>
    simp only [hchannel]
    exact L.pure _ fun w t hp => hempty w t hp.2
  | cons event rest =>
    simp only [hchannel]
    refine L.bind (L.modify (R := Q (some event)) _ fun w t hp => ?_) fun _ =>
      L.pure _ fun _ _ hp => hp
    obtain rfl : kernel = w.kernel := hp.1
    exact htake w t event rest hchannel hp.2

theorem holds_waitAny {Q : Kernel.WaitResult → Program.Assertion World Entry} (h : SteadyIn L P)
    (hpost : ∀ w t answer, P w t → Program.Leads L.step (Q (w.kernel.waitAny answer).1) w t
      { w with kernel := (w.kernel.waitAny answer).2 } t) :
    L.Holds P waitAny Q := by
  refine L.bind (holds_turn h) fun r => ?_
  obtain ⟨kernel, answer⟩ := r
  refine L.bind (L.modify (R := Q (kernel.waitAny answer).1) _ fun w t hp => ?_) fun _ =>
    L.pure _ fun _ _ hp => hp
  obtain rfl : kernel = w.kernel := hp.1
  exact hpost w t answer hp.2

/-! ### Cleanups -/

/-- Group `group` has a pending cleanup. -/
def Supervisor.Pending (sup : Supervisor) (group : ℕ) : Prop :=
  ∃ cleanup ∈ sup.cleanups, cleanup.group = group

theorem pending_iff_any (sup : Supervisor) (group : ℕ) :
    sup.cleanups.any (fun cleanup => cleanup.group = group) = true ↔ sup.Pending group := by
  simp only [List.any_eq_true, decide_eq_true_eq, Supervisor.Pending]

/-- The entry that `schedule_cleanup` adds at this time. -/
def dueCleanup (group now : ℕ) : PendingCleanup :=
  ⟨group, now + shutdownGrace, now + shutdownGrace + killGrace, false⟩

/-- `A` holds once the group was asked for, `S` once it has got its signal. -/
theorem holds_scheduleCleanup (group : ℕ) {A : Bool → Program.Assertion World Entry}
    {S : Program.Assertion World Entry} (hP : SteadyIn L P)
    (hasked : ∀ w t, P w t → Program.Leads L.step (A (w.kernel.groupExists group)) w t w
      (⟨.groupObserved group (w.kernel.groupExists group), w⟩ :: t))
    (hskip : ∀ alive w t, alive = false ∨ w.supervisor.Pending group → A alive w t → Q w t)
    (hA : SteadyIn L (A true))
    (hsignalled : ∀ w t, ¬w.supervisor.Pending group → A true w t →
      Program.Leads L.step S w t w (⟨.signalled group sigterm, w⟩ :: t))
    (hS : SteadyIn L S)
    (hscheduled : ∀ w t, S w t → Program.Leads L.step Q w t { w with supervisor :=
      { w.supervisor with
        cleanups := w.supervisor.cleanups ++ [dueCleanup group w.kernel.clock] } } t) :
    L.Holds P (scheduleCleanup group) fun _ => Q := by
  refine L.bind (holds_processGroupExists group hP hasked) fun alive => ?_
  refine L.bind holds_supervisor fun sup => ?_
  split
  · rename_i hcases
    rw [pending_iff_any] at hcases
    refine L.pure _ ?_
    rintro w t ⟨rfl, hp⟩
    exact hskip alive w t hcases hp
  · rename_i hnot
    rw [pending_iff_any, not_or, Bool.not_eq_false] at hnot
    obtain ⟨rfl, hfree⟩ := hnot
    have hsteady : SteadyIn L fun w t => ¬w.supervisor.Pending group ∧ A true w t :=
      hA.and fun sup => ¬sup.Pending group
    refine L.bind (L.pre (holds_signalGroup (R := S) group sigterm hsteady fun w t hp =>
      hsignalled w t hp.1 hp.2) ?_) fun _ => ?_
    · rintro w t ⟨rfl, hp⟩
      exact ⟨hfree, hp⟩
    refine L.bind (holds_now hS) fun now => ?_
    refine holds_modifySupervisor _ ?_
    rintro w t ⟨rfl, hp⟩
    exact hscheduled w t hp

/-- An entry that a sweep has left in the list. -/
def Remnant (cleanup left : PendingCleanup) : Prop := left = { cleanup with killed := left.killed }

theorem holds_killOverdue {K : PendingCleanup → Program.Assertion World Entry} (now : ℕ)
    (cleanup : PendingCleanup) (hP : SteadyIn L P)
    (hkilled : cleanup.killed = false → cleanup.killAt ≤ now → ∀ w t, P w t →
      Program.Leads L.step (K { cleanup with killed := true }) w t w
        (⟨.signalled cleanup.group sigkill, w⟩ :: t))
    (hspared : (cleanup.killAt ≤ now → cleanup.killed = true) → ∀ w t, P w t → K cleanup w t) :
    L.Holds P (killOverdue now cleanup) fun left w t => Remnant cleanup left ∧ K left w t := by
  unfold killOverdue
  split
  · rename_i hdue
    refine L.bind (holds_signalGroup (R := K { cleanup with killed := true }) cleanup.group sigkill
      hP (hkilled hdue.1 hdue.2)) fun _ => L.pure _ fun _ _ hp => ⟨rfl, hp⟩
  · rename_i hdue
    refine L.pure _ fun w t hp => ⟨rfl, hspared (fun hlate => ?_) w t hp⟩
    by_contra hkilled
    exact hdue ⟨by simpa using hkilled, hlate⟩

/-- `A` holds once the group was asked for, `K` once an overdue group was killed. -/
theorem holds_processCleanup {A : Bool → Program.Assertion World Entry}
    {K : PendingCleanup → Program.Assertion World Entry}
    {Q : Option PendingCleanup → Program.Assertion World Entry} (now : ℕ)
    (cleanup : PendingCleanup) (hP : SteadyIn L P)
    (hasked : ∀ w t, P w t → Program.Leads L.step (A (w.kernel.groupExists cleanup.group)) w t w
      (⟨.groupObserved cleanup.group (w.kernel.groupExists cleanup.group), w⟩ :: t))
    (hgone : ∀ w t, A false w t → Q none w t) (hA : SteadyIn L (A true))
    (hkilled : cleanup.killed = false → cleanup.killAt ≤ now → ∀ w t, A true w t →
      Program.Leads L.step (K { cleanup with killed := true }) w t w
        (⟨.signalled cleanup.group sigkill, w⟩ :: t))
    (hspared : (cleanup.killAt ≤ now → cleanup.killed = true) → ∀ w t, A true w t → K cleanup w t)
    (habandoned : ∀ left, Remnant cleanup left → left.giveUpAt ≤ now → ∀ w t, K left w t →
      Program.Leads L.step (Q none) w t w (⟨.cleanupAbandoned left.group, w⟩ :: t))
    (hleft : ∀ left, Remnant cleanup left → now < left.giveUpAt → ∀ w t, K left w t →
      Q (some left) w t) :
    L.Holds P (processCleanup now cleanup) Q := by
  refine L.bind (holds_processGroupExists cleanup.group hP hasked) fun alive => ?_
  cases alive with
  | false => exact L.pure _ hgone
  | true =>
    refine L.bind (holds_killOverdue now cleanup hA hkilled hspared) fun left => ?_
    refine L.fact fun hremnant => ?_
    by_cases hover : left.giveUpAt ≤ now
    · simp only [if_pos hover]
      exact L.bind (L.record (R := Q none) _ (habandoned left hremnant hover)) fun _ =>
        L.pure _ fun _ _ hp => hp
    · simp only [if_neg hover]
      exact L.pure _ (hleft left hremnant (Nat.lt_of_not_le hover))

/-- `I now cleanups done kept` holds once the sweep that began at `now` has seen `done`. -/
theorem holds_processCleanups
    {I : ℕ → List PendingCleanup → List PendingCleanup → List PendingCleanup →
      Program.Assertion World Entry} (hP : SteadyIn L P)
    (hbegin : ∀ w t, P w t → I w.kernel.clock w.supervisor.cleanups [] [] w t)
    (hkeep : ∀ now cleanups done kept cleanup rest, cleanups = done ++ cleanup :: rest →
      L.Holds (I now cleanups done kept) (processCleanup now cleanup) fun left =>
        I now cleanups (done ++ [cleanup]) (kept ++ left.toList))
    (hend : ∀ now cleanups kept w t, I now cleanups cleanups kept w t → Program.Leads L.step Q w t
      { w with supervisor := { w.supervisor with cleanups := kept } } t) :
    L.Holds P processCleanups fun _ => Q := by
  refine L.bind (holds_now hP) fun now => ?_
  refine L.bind holds_supervisor fun sup => ?_
  refine L.bind (L.pre (L.retain (I := I now sup.cleanups) _ sup.cleanups
    (hkeep now sup.cleanups)) ?_) fun kept => ?_
  · rintro w t ⟨rfl, rfl, hp⟩
    exact hbegin w t hp
  · exact holds_modifySupervisor _ (hend now sup.cleanups kept)

/-! ### Reaping -/

/-- The child of process `index` has been waited for. -/
def Found (index pid : ℕ) (sup : Supervisor) : Prop :=
  ∃ process, sup.processes[index]? = some process ∧ process.alive = true ∧ process.pid = pid

theorem found_of_findIdx {sup : Supervisor} {index pid : ℕ}
    (h : sup.processes.findIdx? (fun process => process.pid = pid ∧ process.alive = true) =
      some index) : Found index pid sup := by
  obtain ⟨hlt, htest, -⟩ := List.findIdx?_eq_some_iff_getElem.mp h
  have hfound : sup.processes[index].pid = pid ∧ sup.processes[index].alive = true := by
    simpa using htest
  exact ⟨sup.processes[index], List.getElem?_eq_getElem hlt, hfound.2, hfound.1⟩

theorem holds_cleanUpResidual {D : Bool → Program.Assertion World Entry} (residual : Bool)
    (pid : ℕ) (hclean : L.Holds (D true) (scheduleCleanup pid) fun _ => Q)
    (hgone : ∀ w t, D false w t → Q w t) :
    L.Holds (D residual) (cleanUpResidual residual pid) fun _ => Q := by
  cases residual with
  | false => exact L.pure _ hgone
  | true => exact hclean

/-- `A` holds once the group was asked for, `D` once the exit is on record. -/
theorem holds_reapFound {A D : Bool → Program.Assertion World Entry} (index pid status : ℕ)
    (hP : SteadyIn L P)
    (hasked : ∀ w t, P w t → Program.Leads L.step (A (w.kernel.groupExists pid)) w t w
      (⟨.groupObserved pid (w.kernel.groupExists pid), w⟩ :: t))
    (hfound : ∀ residual w t, A residual w t → Found index pid w.supervisor)
    (hexited : ∀ residual process w t, w.supervisor.processes[index]? = some process →
      process.alive = true → process.pid = pid → A residual w t →
      Program.Leads L.step (D residual) w t
        { w with supervisor := w.supervisor.markExited index status residual process }
        (⟨.exited index status residual,
          { w with supervisor := w.supervisor.markExited index status residual process }⟩ :: t))
    (hclean : L.Holds (D true) (scheduleCleanup pid) fun _ => Q)
    (hgone : ∀ w t, D false w t → Q w t) :
    L.Holds P (reapFound index pid status) fun _ => Q := by
  refine L.bind (holds_processGroupExists pid hP hasked) fun residual => ?_
  refine L.bind holds_supervisor fun sup => ?_
  refine L.bind (L.ofExcept (Q := fun process w t => w.supervisor.processes[index]? = some process ∧
    A residual w t) _ ?_ ?_) fun process => ?_
  · rintro process he w t ⟨rfl, hp⟩
    exact ⟨(expect_eq_ok _ _).mp he, hp⟩
  · rintro e he w t ⟨rfl, hp⟩
    obtain ⟨process, hprocess, -⟩ := hfound residual w t hp
    rw [hprocess] at he
    cases he
  · refine L.updateBind _ _ _ (fun w t ⟨hprocess, hp⟩ => ?_)
      (holds_cleanUpResidual residual pid hclean hgone)
    obtain ⟨other, hother, halive, hpid⟩ := hfound residual w t hp
    obtain rfl : process = other := Option.some.inj (hprocess.symm.trans hother)
    exact hexited residual process w t hprocess halive hpid hp

theorem holds_reapProcess {F : ℕ → Program.Assertion World Entry} (pid status : ℕ)
    (hunknown : ∀ w t, (∀ process ∈ w.supervisor.processes, process.alive = true →
      process.pid ≠ pid) → P w t → Q w t)
    (hfound : ∀ index w t, Found index pid w.supervisor → P w t → F index w t)
    (hreap : ∀ index, L.Holds (F index) (reapFound index pid status) fun _ => Q) :
    L.Holds P (reapProcess pid status) fun _ => Q := by
  refine L.bind holds_supervisor fun sup => ?_
  split
  · rename_i hnone
    refine L.pure _ ?_
    rintro w t ⟨rfl, hp⟩
    refine hunknown w t (fun process hm halive hpid => ?_) hp
    have hmiss := List.findIdx?_eq_none_iff.mp hnone process hm
    simp [halive, hpid] at hmiss
  · rename_i index hfind
    refine L.pre (hreap index) ?_
    rintro w t ⟨rfl, hp⟩
    exact hfound index w t (found_of_findIdx hfind) hp

/-- The error of `reap_available`. -/
def waitError (error : Bytes) : Failure RuntimeError :=
  .error ⟨lit "wait for processes: " ++ error⟩

/-- `W` holds by what `waitpid` has returned. -/
theorem holds_reapAvailable {W : Kernel.WaitResult → Program.Assertion World Entry}
    (hwait : L.Holds P waitAny W)
    (hreap : ∀ pid status, L.Holds (W (.reaped pid status)) (reapProcess pid status) fun _ => P)
    (hrest : ∀ result, (∀ pid status, result ≠ .reaped pid status) → ∀ w t, W result w t → P w t)
    (hfailed : ∀ error w t, P w t → L.raised (waitError error) w t)
    (hstop : ∀ w t, P w t → L.stop w t) :
    L.Holds P reapAvailable fun _ => P := by
  refine L.loop (I := fun _ => P) _ () (fun _ => ?_) fun _ => hstop
  refine L.bind hwait fun result => ?_
  cases result with
  | reaped pid status => exact L.bind (hreap pid status) fun _ => L.pure _ fun _ _ hp => hp
  | running => exact L.pure _ (hrest _ fun _ _ => Kernel.WaitResult.noConfusion)
  | interrupted => exact L.pure _ (hrest _ fun _ _ => Kernel.WaitResult.noConfusion)
  | noChildren => exact L.pure _ (hrest _ fun _ _ => Kernel.WaitResult.noConfusion)
  | failed error =>
    exact L.raise _ fun w t hp =>
      hfailed error w t (hrest _ (fun _ _ => Kernel.WaitResult.noConfusion) w t hp)

/-! ### Probe results -/

theorem holds_applyProbeEvent (event : ProbeEvent)
    (hobserved : ∀ process state w t, w.supervisor.processes[event.processIndex]? = some process →
      process.alive = true → process.probe = some state → P w t →
      Program.Leads L.step P w t
        { w with supervisor := { w.supervisor with
          processes := w.supervisor.processes.set event.processIndex
            { process with probe := some (state.observe event.success).1 } } }
        (⟨.probed event.processIndex event.success,
          { w with supervisor := { w.supervisor with
            processes := w.supervisor.processes.set event.processIndex
              { process with probe := some (state.observe event.success).1 } } }⟩ :: t)) :
    L.Holds P (applyProbeEvent event) fun _ => P := by
  refine L.bind holds_supervisor fun sup => ?_
  split
  · exact L.pure _ fun _ _ hp => hp.2
  rename_i process hprocess
  split
  · exact L.pure _ fun _ _ hp => hp.2
  rename_i halive
  split
  · exact L.pure _ fun _ _ hp => hp.2
  rename_i state hstate
  refine L.update _ _ ?_
  rintro w t ⟨rfl, hp⟩
  exact hobserved process state w t hprocess (by simpa using halive) hstate hp

theorem holds_drainProbeEvents (hreceive : L.Holds P tryReceive fun _ => P)
    (happly : ∀ event, L.Holds P (applyProbeEvent event) fun _ => P)
    (hstop : ∀ w t, P w t → L.stop w t) : L.Holds P drainProbeEvents fun _ => P := by
  refine L.loop (I := fun _ => P) _ () (fun _ => ?_) fun _ => hstop
  refine L.bind hreceive fun result => ?_
  cases result with
  | none => exact L.pure _ fun _ _ hp => hp
  | some event => exact L.bind (happly event) fun _ => L.pure _ fun _ _ hp => hp

theorem holds_nextProbeEvent (wait : ℕ) (hreceive : L.Holds P tryReceive fun _ => P) :
    L.Holds P (nextProbeEvent wait) fun _ => P := by
  unfold nextProbeEvent receiveTimeout
  split
  · exact hreceive
  · exact hreceive

theorem holds_applyProbeEvents (event : Option ProbeEvent)
    (happly : ∀ event, L.Holds P (applyProbeEvent event) fun _ => P)
    (hdrain : L.Holds P drainProbeEvents fun _ => P) :
    L.Holds P (applyProbeEvents event) fun _ => P := by
  cases event with
  | none => exact L.pure _ fun _ _ hp => hp
  | some event => exact L.bind (happly event) fun _ => hdrain

/-! ### `drive` -/

/-- `S` holds of the number that has come out, and `P` if none has. -/
def Unless (S : ℕ → Program.Assertion World Entry) (P : Program.Assertion World Entry) :
    Option ℕ → Program.Assertion World Entry
  | none => P
  | some number => S number

/-- `U` holds once the flag was refreshed, `S` once the signal was looked at, `D` at the end. -/
theorem holds_drive {U : Program.Assertion World Entry}
    {S D : Option ℕ → Program.Assertion World Entry} (wait : ℕ)
    (hreap : L.Holds P reapAvailable fun _ => P)
    (hreceive : L.Holds P tryReceive fun _ => P)
    (happly : ∀ event, L.Holds P (applyProbeEvent event) fun _ => P)
    (hsweep : L.Holds P processCleanups fun _ => P)
    (hupdate : ∀ w t, P w t → Program.Leads L.step U w t
      { w with supervisor := { w.supervisor with ready := w.supervisor.readiness } } t)
    (hsignal : L.Holds U receivedSignal S) (hgoOn : ∀ w t, S none w t → P w t)
    (hfinished : ∀ signal w t, S signal w t →
      Program.Leads L.step (D signal) w t w (⟨.finished .drive, w⟩ :: t))
    (hstop : ∀ w t, P w t → L.stop w t) : L.Holds P (drive wait) D := by
  have hdrain : L.Holds P drainProbeEvents fun _ => P :=
    holds_drainProbeEvents hreceive happly hstop
  have hend : ∀ signal, L.Holds (S signal) (do
      record (.finished .drive)
      pure signal) D := fun signal =>
    L.bind (L.record (R := D signal) _ (hfinished signal)) fun _ => L.pure _ fun _ _ hp => hp
  refine L.bind hreap fun _ => ?_
  refine L.bind hdrain fun _ => ?_
  refine L.bind hsweep fun _ => ?_
  refine L.bind (holds_modifySupervisor _ hupdate) fun _ => ?_
  refine L.bind hsignal fun signal => ?_
  cases signal with
  | some signal => exact hend (some signal)
  | none =>
    refine L.bind (L.pre (holds_nextProbeEvent wait hreceive) hgoOn) fun event => ?_
    refine L.bind (holds_applyProbeEvents event happly hdrain) fun _ => ?_
    refine L.bind hreap fun _ => ?_
    refine L.bind hsweep fun _ => ?_
    refine L.bind (holds_modifySupervisor _ hupdate) fun _ => ?_
    exact L.bind hsignal hend

end Sandcamp.Campd
