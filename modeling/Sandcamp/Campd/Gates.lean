import Sandcamp.Campd.Steps
import Sandcamp.Campd.Guarantees

/-!
# When a gate is passed

`wait_for_job` and `wait_for_service` poll `drive` and look at their process each time it
returns. What a step of `drive` does to one process and to its part of the trace is said
once; from it follows what a gate knows when it looks.
-/

namespace Sandcamp.Campd
open Foundations

/-! ### One process along a step -/

/-- Actions that say something about process `index` or end a step of the supervisor. -/
def Action.concerns (index : ℕ) : Action → Bool
  | .exited i _ _ | .probed i _ => i = index
  | .finished _ => true
  | _ => false

/-- At most one entry is new, and it is not about process `index`. -/
def Silent (index : ℕ) (t t' : Trace) : Prop :=
  t' = t ∨ ∃ entry, t' = entry :: t ∧ entry.action.concerns index = false

/-- What a step makes of a process. -/
inductive Touched (index : ℕ) (process : ManagedProcess) (t : Trace) (w' : World) (t' : Trace) :
    Prop
  | untouched (hprocess : w'.supervisor.processes[index]? = some process)
      (hsilent : Silent index t t')
  | exited (status : ℕ) (left : ManagedProcess) (halive : process.alive = true)
      (hprocess : w'.supervisor.processes[index]? = some left) (hpid : left.pid = process.pid)
      (hkind : left.kind = process.kind) (hdead : left.alive = false)
      (hstatus : left.exitStatus = some status)
      (hresidual : left.residualGroup = w'.kernel.groupExists process.pid)
      (hfailure : process.kind = .service → w'.supervisor.initializationComplete = false →
        w'.supervisor.startupFailure.isSome = true)
      (htrace : t' = ⟨.exited index status left.residualGroup, w'⟩ :: t)
  | probed (probe : ProbeState) (success : Bool) (halive : process.alive = true)
      (hprobe : process.probe = some probe)
      (hprocess : w'.supervisor.processes[index]? =
        some { process with probe := some (probe.observe success).1 })
      (htrace : t' = ⟨.probed index success, w'⟩ :: t)

variable {w w' : World} {t t' : Trace} {index : ℕ} {process : ManagedProcess} {a b : Phase}

theorem Step.touched (h : Step a w t b w' t')
    (hp : w.supervisor.processes[index]? = some process) : Touched index process t w' t' := by
  have hlt : index < w.supervisor.processes.length := (List.getElem?_eq_some_iff.mp hp).1
  have hset : ∀ (i : ℕ) (new : ManagedProcess), i ≠ index →
      (w.supervisor.processes.set i new)[index]? = some process := fun i new hne => by
    rw [List.getElem?_set_ne hne]
    exact hp
  cases h with
  | turn | receive | release | scheduled | swept | refreshed => exact .untouched hp (Or.inl rfl)
  | observed | signalled | abandoned | signalObserved =>
    exact .untouched hp (Or.inr ⟨_, rfl, rfl⟩)
  | exited _ _ older i status other hother halive hasked =>
    by_cases hi : i = index
    · subst hi
      obtain rfl : other = process := Option.some.inj (hother.symm.trans hp)
      refine .exited status _ halive (List.getElem?_set_self hlt) rfl rfl rfl rfl rfl ?_ rfl
      intro hkind hearly
      have hcomplete : w.supervisor.initializationComplete = false := hearly
      simp [Supervisor.markExited, hkind, hcomplete]
    · exact .untouched (hset i _ hi) (Or.inr ⟨_, rfl, by simpa [Action.concerns] using hi⟩)
  | probed _ _ i other probe success hother halive hprobe =>
    by_cases hi : i = index
    · subst hi
      obtain rfl : other = process := Option.some.inj (hother.symm.trans hp)
      exact .probed probe success halive hprobe (List.getElem?_set_self hlt) rfl
    · exact .untouched (hset i _ hi) (Or.inr ⟨_, rfl, by simpa [Action.concerns] using hi⟩)

/-- No step of `drive` ends it. -/
theorem Step.trace_cases (h : Step a w t b w' t') :
    t' = t ∨ ∃ entry, t' = entry :: t ∧ ∀ step, entry.action ≠ .finished step := by
  cases h with
  | turn | receive | release | scheduled | swept | refreshed => exact Or.inl rfl
  | observed | signalled | abandoned | signalObserved | exited | probed =>
    exact Or.inr ⟨_, rfl, by simp⟩

/-- No step ends the initialization or takes a failure back. -/
theorem Step.initialization (h : Step a w t b w' t') :
    w'.supervisor.processes.length = w.supervisor.processes.length ∧
      w'.supervisor.initializationComplete = w.supervisor.initializationComplete ∧
      (w.supervisor.startupFailure.isSome = true →
        w'.supervisor.startupFailure.isSome = true) := by
  cases h with
  | turn | receive | release | observed | signalled | abandoned | signalObserved | scheduled
  | swept | refreshed => exact ⟨rfl, rfl, fun h => h⟩
  | exited _ _ older i status process =>
    refine ⟨List.length_set, rfl, fun hfailed => ?_⟩
    simp only [Supervisor.markExited]
    split
    · rfl
    · exact hfailed
  | probed => exact ⟨List.length_set, rfl, fun h => h⟩

/-! ### Startup failures -/

/-- The entry says that a service was reaped. -/
def Entry.endsService (entry : Entry) : Bool :=
  match entry.action with
  | .exited index _ _ =>
    entry.world.supervisor.processes[index]?.any fun process => process.kind = .service
  | _ => false

def ServiceExited (t : Trace) : Prop := ∃ entry ∈ t, entry.endsService = true

instance (t : Trace) : Decidable (ServiceExited t) :=
  inferInstanceAs (Decidable (∃ entry ∈ t, entry.endsService = true))

theorem ServiceExited.mono (new : Trace) (h : ServiceExited t) : ServiceExited (new ++ t) := by
  obtain ⟨entry, hm, hends⟩ := h
  exact ⟨entry, List.mem_append_right _ hm, hends⟩

def Entry.observesSignal (entry : Entry) : Bool :=
  match entry.action with
  | .signalObserved _ => true
  | _ => false

/-- campd has seen a signal. -/
def SignalSeen (t : Trace) : Prop := ∃ entry ∈ t, entry.observesSignal = true

instance (t : Trace) : Decidable (SignalSeen t) :=
  inferInstanceAs (Decidable (∃ entry ∈ t, entry.observesSignal = true))

theorem signalSeen_of_mem {signal : ℕ} (h : Action.signalObserved signal ∈ acts t) :
    SignalSeen t := by
  obtain ⟨entry, hm, he⟩ := List.mem_map.mp h
  exact ⟨entry, hm, by rw [Entry.observesSignal, he]⟩

theorem signalSeen_of_done {P : Program.Assertion World Entry} {signal : ℕ}
    (h : DriveDone P (some signal) w t) : SignalSeen t := by
  obtain ⟨older, rfl, -, hsignal⟩ := h
  exact signalSeen_of_mem (mem_acts_of_mem [_] (hsignal signal rfl))

/-- During a gate nothing but the exit of a service is a startup failure. -/
def Untroubled (w : World) (t : Trace) : Prop :=
  w.supervisor.startupFailure = none ∨ ServiceExited t

theorem kept_untroubled : Kept Untroubled := by
  rintro a w t b w' t' hstep (hnone | hexited)
  · cases hstep with
    | exited _ _ older i status process hprocess halive hasked =>
      have hlt : i < w.supervisor.processes.length := (List.getElem?_eq_some_iff.mp hprocess).1
      by_cases hkind : process.kind = .service
      · refine Or.inr ⟨_, List.mem_cons_self, ?_⟩
        simp [Entry.endsService, Supervisor.markExited, List.getElem?_set_self hlt, hkind]
      · refine Or.inl ?_
        simp only [Supervisor.markExited, hkind, false_and, if_false]
        exact hnone
    | turn | receive | release | observed | signalled | abandoned | signalObserved | probed
    | scheduled | swept | refreshed => exact Or.inl hnone
  · rcases hstep.trace_cases with rfl | ⟨entry, rfl, -⟩
    · exact Or.inr hexited
    · exact Or.inr (hexited.mono [entry])

theorem Kept.and {P Q : Program.Assertion World Entry} (hp : Kept P) (hq : Kept Q) :
    Kept fun w t => P w t ∧ Q w t :=
  fun _ _ _ _ _ _ hstep h => ⟨hp _ _ _ _ _ _ hstep h.1, hq _ _ _ _ _ _ hstep h.2⟩

/-! ### The job of a gate -/

/-- Every entry that says process `index` was reaped has this status, and the group was asked
for with this answer. -/
def ReapedWith (index group status : ℕ) (residual : Bool) (t : Trace) : Prop :=
  ∀ entry ∈ t, ∀ s r, entry.action = .exited index s r →
    s = status ∧ entry.world.kernel.groupExists group = residual

/-- What the supervisor knows about its job is what the trace says. -/
inductive JobKnown (index group : ℕ) (w : World) (t : Trace) : Prop
  | waiting (process : ManagedProcess) (hprocess : w.supervisor.processes[index]? = some process)
      (hpid : process.pid = group) (halive : process.alive = true)
      (hstatus : process.exitStatus = none) (hexited : ¬HasExited index t)
  | reaped (process : ManagedProcess) (status : ℕ)
      (hprocess : w.supervisor.processes[index]? = some process)
      (hdead : process.alive = false) (hstatus : process.exitStatus = some status)
      (hexited : HasExited index t)
      (hwith : ReapedWith index group status process.residualGroup t)

variable {group status : ℕ} {residual : Bool}

theorem hasExited_silent (h : Silent index t t') : HasExited index t' ↔ HasExited index t := by
  rcases h with rfl | ⟨entry, rfl, hconcerns⟩
  · exact Iff.rfl
  · have hne : ∀ s r, Action.exited index s r ≠ entry.action := by
      rintro s r he
      rw [← he] at hconcerns
      simp [Action.concerns] at hconcerns
    simp only [HasExited, mem_acts_cons, hne, false_or]

theorem reapedWith_cons (entry : Entry) (hne : ∀ s r, entry.action ≠ .exited index s r)
    (h : ReapedWith index group status residual t) :
    ReapedWith index group status residual (entry :: t) := by
  intro e he s r ha
  rcases List.mem_cons.mp he with rfl | he
  · exact absurd ha (hne s r)
  · exact h e he s r ha

theorem reapedWith_silent (hsilent : Silent index t t')
    (h : ReapedWith index group status residual t) :
    ReapedWith index group status residual t' := by
  rcases hsilent with rfl | ⟨entry, rfl, hconcerns⟩
  · exact h
  · refine reapedWith_cons entry (fun s r ha => ?_) h
    rw [ha] at hconcerns
    simp [Action.concerns] at hconcerns

theorem kept_jobKnown (index group : ℕ) : Kept (JobKnown index group) := by
  intro a w t b w' t' hstep h
  cases h with
  | waiting process hp hpid halive hnone hexited =>
    cases hstep.touched hp with
    | untouched hprocess hsilent =>
      exact .waiting process hprocess hpid halive hnone
        (mt (hasExited_silent hsilent).mp hexited)
    | exited status left _ hprocess _ _ hdead hstatus hresidual _ htrace =>
      subst htrace
      refine .reaped left status hprocess hdead hstatus
        ⟨status, _, (mem_acts_cons _ _ _).mpr (Or.inl rfl)⟩ fun e he s r ha => ?_
      rcases List.mem_cons.mp he with rfl | he
      · cases ha
        rw [← hpid]
        exact ⟨rfl, hresidual.symm⟩
      · exact absurd ⟨s, r, ha ▸ List.mem_map_of_mem he⟩ hexited
    | probed probe success _ _ hprocess htrace =>
      refine .waiting _ hprocess hpid halive hnone ?_
      rw [htrace]
      rintro ⟨s, r, hm⟩
      rcases (mem_acts_cons _ _ _).mp hm with he | hm
      · cases he
      · exact hexited ⟨s, r, hm⟩
  | reaped process status hp hdead hstatus hexited hwith =>
    cases hstep.touched hp with
    | untouched hprocess hsilent =>
      exact .reaped process status hprocess hdead hstatus ((hasExited_silent hsilent).mpr hexited)
        (reapedWith_silent hsilent hwith)
    | exited _ _ halive => exact absurd (hdead.symm.trans halive) (by simp)
    | probed _ _ halive => exact absurd (hdead.symm.trans halive) (by simp)

/-- No round of the gate has ended after its job was reaped. -/
def Unjudged (index : ℕ) (t : Trace) : Prop :=
  ∀ newer older entry status residual, t = newer ++ entry :: older →
    entry.action = .exited index status residual → Action.finished .drive ∉ acts newer

theorem unjudged_cons (entry : Entry) (hne : entry.action ≠ .finished .drive)
    (h : Unjudged index t) : Unjudged index (entry :: t) := by
  intro newer older e s r ht he hm
  cases newer with
  | nil => exact List.not_mem_nil hm
  | cons first newer =>
    obtain ⟨rfl, hrest⟩ := List.cons.inj ht
    rcases (mem_acts_cons _ _ _).mp hm with hfirst | hm
    · exact hne hfirst.symm
    · exact h newer older e s r hrest he hm

theorem unjudged_of_not_hasExited (h : ¬HasExited index t) : Unjudged index t := by
  intro newer older entry s r ht he
  refine absurd ⟨s, r, ?_⟩ h
  rw [ht, ← he]
  exact List.mem_map_of_mem (List.mem_append_right _ List.mem_cons_self)

theorem kept_unjudged (index : ℕ) : Kept fun _ t => Unjudged index t := by
  intro a w t b w' t' hstep h
  rcases hstep.trace_cases with rfl | ⟨entry, rfl, hne⟩
  · exact h
  · exact unjudged_cons entry (hne .drive) h

/-! ### `wait_for_job` -/

/-- A drive of the gate has taken the job from `waitpid`, with exit code 0 and with no other
member of its group left to be waited for. -/
def JobPassed (index group : ℕ) (t : Trace) : Prop :=
  ∃ newer older entry status residual, t = newer ++ entry :: older ∧
    entry.action = .exited index status residual ∧ exitCode status = 0 ∧
    (∀ p ∈ entry.world.kernel.table, p.group.number ≠ group) ∧
    Action.finished .drive ∈ acts newer

theorem groupExists_eq_false (kernel : Kernel) (group : ℕ) :
    kernel.groupExists group = false ↔ ∀ p ∈ kernel.table, p.group.number ≠ group := by
  simp [Kernel.groupExists]

theorem not_jobPassed_of_unjudged (h : Unjudged index t) : ¬JobPassed index group t := by
  rintro ⟨newer, older, entry, s, r, ht, he, -, -, hm⟩
  exact h newer older entry s r ht he hm

/-- The gate fails or has not come to its end. -/
def JobOpen (index group : ℕ) : Program.Assertion World Entry := fun _ t =>
  ServiceExited t ∨ ¬JobPassed index group t

def JobOutcome (index group : ℕ) : WaitOutcome → Program.Assertion World Entry
  | .completed => fun w t => JobPassed index group t ∧ Untroubled w t
  | .failed _ => JobOpen index group
  | .signal _ => fun _ t => SignalSeen t

/-- At the beginning of a round: the job runs. -/
structure JobWaiting (index group : ℕ) (w : World) (t : Trace) : Prop where
  present : ∃ process, w.supervisor.processes[index]? = some process ∧ process.pid = group ∧
    process.alive = true ∧ process.exitStatus = none
  unreaped : ¬HasExited index t
  untroubled : Untroubled w t

theorem jobWaiting_steady : Steady (JobWaiting index group) :=
  fun _ _ _ h => ⟨h.present, h.unreaped, h.untroubled⟩

theorem jobOpen_of_waiting (w : World) (t : Trace) (h : JobWaiting index group w t) :
    JobOpen index group w t :=
  Or.inr (not_jobPassed_of_unjudged (unjudged_of_not_hasExited h.unreaped))

/-- What `drive` keeps while the gate waits. -/
def JobDriving (index group : ℕ) : Program.Assertion World Entry := fun w t =>
  JobKnown index group w t ∧ Untroubled w t ∧ Unjudged index t

theorem jobDriving_of_waiting (w : World) (t : Trace) (h : JobWaiting index group w t) :
    JobDriving index group w t := by
  obtain ⟨process, hprocess, hpid, halive, hstatus⟩ := h.present
  exact ⟨.waiting process hprocess hpid halive hstatus h.unreaped, h.untroubled,
    unjudged_of_not_hasExited h.unreaped⟩

theorem jobOpen_of_driving (w : World) (t : Trace) (h : JobDriving index group w t) :
    JobOpen index group w t :=
  Or.inr (not_jobPassed_of_unjudged h.2.2)

theorem triple_drive_job (index group wait : ℕ) :
    Program.Triple (JobWaiting index group) (drive wait) (DriveDone (JobDriving index group))
      (JobOpen index group) := by
  have hkept : Kept (JobDriving index group) :=
    (kept_jobKnown index group).and (kept_untroubled.and (kept_unjudged index))
  exact Program.triple_stop (Program.triple_pre _ (kept_drive hkept wait) jobDriving_of_waiting)
    jobOpen_of_driving

theorem triple_scheduleCleanup_neutral {F : Trace → Prop}
    (hF : ∀ entry t, entry.action.neutral = true → F t → F (entry :: t)) (group : ℕ) :
    Program.Triple (fun _ t => F t) (scheduleCleanup group) (fun _ _ t => F t)
      (fun _ t => F t) := by
  have hsteady : SteadyIn (.triples fun _ t => F t) fun _ t => F t :=
    ⟨fun _ _ _ h => ⟨trivial, h⟩, fun _ _ h => h⟩
  exact Program.Logic.triple (holds_scheduleCleanup group (A := fun _ _ t => F t)
    (S := fun _ t => F t) hsteady (fun _ t h => ⟨trivial, hF _ t rfl h⟩) (fun _ _ _ _ h => h)
    hsteady (fun _ t _ h => ⟨trivial, hF _ t rfl h⟩) hsteady fun _ _ h => ⟨trivial, h⟩)

/-- Nothing that is recorded of a cleanup makes the gate pass. -/
theorem jobOpen_neutral (entry : Entry) (t : Trace) (hn : entry.action.neutral = true)
    (h : ServiceExited t ∨ ¬HasExited index t) :
    ServiceExited (entry :: t) ∨ ¬HasExited index (entry :: t) :=
  h.imp (·.mono [entry]) fun hnot => mt (hasExited_cons index entry t hn).mp hnot

theorem triple_giveUpJob (group cleaned : ℕ) :
    Program.Triple (fun _ t => ServiceExited t ∨ ¬HasExited index t) (scheduleCleanup cleaned)
      (fun _ => JobOpen index group) (JobOpen index group) := by
  have hopen : ∀ t, ServiceExited t ∨ ¬HasExited index t →
      ServiceExited t ∨ ¬JobPassed index group t := fun t h =>
    h.imp_right fun hnot => not_jobPassed_of_unjudged (unjudged_of_not_hasExited hnot)
  exact Program.triple_stop (Program.triple_post _
    (triple_scheduleCleanup_neutral (F := fun t => ServiceExited t ∨ ¬HasExited index t)
      jobOpen_neutral cleaned) fun _ _ t h => hopen t h) fun _ t h => hopen t h

/-- What the gate finds when `drive` returns without a signal. -/
structure JobSeen (index group : ℕ) (process : ManagedProcess) (w : World) (t : Trace) : Prop where
  present : w.supervisor.processes[index]? = some process
  finished : ∃ older, t = ⟨.finished .drive, w⟩ :: older ∧ JobDriving index group w older

/-- The verdict on a reaped job is the one its last moment in the process table gives. -/
theorem jobPassed_iff_verdict (h : JobSeen index group process w t)
    (hstatus : process.exitStatus = some status) :
    JobPassed index group t ↔ exitCode status = 0 ∧ process.residualGroup = false := by
  obtain ⟨hp, older, rfl, hknown, -, -⟩ := h
  cases hknown with
  | waiting other hother _ _ hnone _ =>
    obtain rfl : process = other := Option.some.inj (hp.symm.trans hother)
    rw [hstatus] at hnone
    cases hnone
  | reaped other status' hother hdead hstatus' hexited hwith =>
    obtain rfl : process = other := Option.some.inj (hp.symm.trans hother)
    obtain rfl : status = status' := Option.some.inj (hstatus.symm.trans hstatus')
    have hcons := reapedWith_cons ⟨.finished .drive, w⟩ (by simp) hwith
    constructor
    · rintro ⟨newer, older', entry, s, r, ht, he, hcode, hlast, -⟩
      obtain ⟨rfl, hresidual⟩ := hcons entry
        (ht ▸ List.mem_append_right _ List.mem_cons_self) s r he
      exact ⟨hcode, hresidual.symm.trans ((groupExists_eq_false _ _).mpr hlast)⟩
    · rintro ⟨hcode, hresidual⟩
      obtain ⟨s, r, hm⟩ := hexited
      obtain ⟨entry, hentry, he⟩ := List.mem_map.mp hm
      obtain ⟨rfl, hgroup⟩ := hwith entry hentry s r he
      obtain ⟨newer, before, rfl⟩ := List.append_of_mem hentry
      refine ⟨⟨.finished .drive, w⟩ :: newer, before, entry, s, r, rfl, he, hcode,
        (groupExists_eq_false _ _).mp (hgroup.trans hresidual), ?_⟩
      exact (mem_acts_cons _ _ _).mpr (Or.inl rfl)

theorem jobWaiting_of_seen (h : JobSeen index group process w t)
    (hstatus : process.exitStatus = none) : JobWaiting index group w t := by
  obtain ⟨hp, older, rfl, hknown, htrouble, -⟩ := h
  cases hknown with
  | waiting other hother hpid halive hnone hexited =>
    obtain rfl : process = other := Option.some.inj (hp.symm.trans hother)
    refine ⟨⟨process, hp, hpid, halive, hnone⟩, ?_, ?_⟩
    · rwa [hasExited_cons index _ _ rfl]
    · exact htrouble.imp_right (·.mono [_])
  | reaped other status hother hdead hstatus' hexited hwith =>
    obtain rfl : process = other := Option.some.inj (hp.symm.trans hother)
    rw [hstatus] at hstatus'
    cases hstatus'

theorem serviceExited_of_seen (h : JobSeen index group process w t)
    (hfailure : w.supervisor.startupFailure ≠ none) : ServiceExited t := by
  obtain ⟨-, older, rfl, -, htrouble, -⟩ := h
  rcases htrouble with hnone | hexited
  · exact absurd hnone hfailure
  · exact hexited.mono [_]

theorem jobSeen_of_done (w : World) (t : Trace)
    (hp : w.supervisor.processes[index]? = some process)
    (h : DriveDone (JobDriving index group) none w t) : JobSeen index group process w t :=
  ⟨hp, h.elim fun older hold => ⟨older, hold.1, hold.2.1⟩⟩

theorem jobDriving_present (h : JobDriving index group w t) :
    w.supervisor.processes[index]? ≠ none := by
  cases h.1 with
  | waiting process hprocess => simp [hprocess]
  | reaped process status hprocess => simp [hprocess]

theorem jobPassed_cons (entry : Entry) (hne : ∀ s r, entry.action ≠ .exited index s r)
    (hfinished : entry.action ≠ .finished .drive) :
    JobPassed index group (entry :: t) ↔ JobPassed index group t := by
  constructor
  · rintro ⟨newer, older, e, s, r, ht, he, hcode, hlast, hm⟩
    cases newer with
    | nil =>
      obtain ⟨rfl, -⟩ := List.cons.inj ht
      exact absurd he (hne s r)
    | cons first newer =>
      obtain ⟨rfl, hrest⟩ := List.cons.inj ht
      rcases (mem_acts_cons _ _ _).mp hm with hfirst | hm
      · exact absurd hfirst.symm hfinished
      · exact ⟨newer, older, e, s, r, hrest, he, hcode, hlast, hm⟩
  · rintro ⟨newer, older, e, s, r, rfl, he, hcode, hlast, hm⟩
    exact ⟨entry :: newer, older, e, s, r, rfl, he, hcode, hlast, mem_acts_of_mem [entry] hm⟩

theorem gate_waitForJob (index timeout group : ℕ) :
    Program.Triple (JobWaiting index group) (waitForJob index timeout) (JobOutcome index group)
      (JobOpen index group) := by
  have hin : SteadyIn (.triples (JobOpen index group)) (JobWaiting index group) :=
    jobWaiting_steady.inTriples jobOpen_of_waiting
  refine Program.Logic.triple (holds_waitForJob (I := fun _ => JobWaiting index group)
    (D := fun _ => DriveDone (JobDriving index group) none)
    (J := fun _ _ _ t => ServiceExited t ∨ ¬HasExited index t)
    (O := fun _ _ t => ServiceExited t ∨ ¬HasExited index t)
    (K := fun _ _ => JobWaiting index group) hin (fun _ _ h => h)
    { steady := fun _ => hin
      drive := fun _ wait => Program.Logic.post _ (triple_drive_job index group wait).holds ?_
      absent := fun _ w t habsent ⟨_, _, h, _⟩ => absurd habsent (jobDriving_present h)
      failed := fun _ reason process w t hfailure hp h => ⟨trivial, Or.inl ?_⟩
      clean := fun _ process _ => triple_giveUpJob group process.pid
      dead := fun _ _ _ _ _ h => h.imp_right fun hnot =>
        not_jobPassed_of_unjudged (unjudged_of_not_hasExited hnot)
      judged := fun _ process status reason w t _ hp hstatus hverdict h =>
        ⟨trivial, Or.inr fun hpassed => ?_⟩
      succeeded := fun _ process status w t hnone hp hstatus hverdict h =>
        ⟨trivial, ?_, Or.inl hnone⟩
      looking := fun _ process w t _ hp hstatus h =>
        jobWaiting_of_seen (jobSeen_of_done w t hp h) hstatus
      looks := fun _ _ => hin
      late := fun _ _ w t _ h =>
        ⟨trivial, Or.inr (mt (hasExited_cons index _ _ rfl).mp h.unreaped)⟩
      overdue := fun process => triple_giveUpJob group process.pid
      again := fun _ _ _ _ h => h })
  · intro signal w t h
    cases signal with
    | none => exact h
    | some signal => exact signalSeen_of_done h
  · refine ServiceExited.mono [_] (serviceExited_of_seen (jobSeen_of_done w t hp h) ?_)
    rw [hfailure]
    simp
  · have hclean := (jobPassed_iff_verdict (jobSeen_of_done w t hp h) hstatus).mp
      ((jobPassed_cons _ (by simp) (by simp)).mp hpassed)
    rw [(jobVerdict_eq_none process status).mpr hclean] at hverdict
    cases hverdict
  · refine (jobPassed_cons _ (by simp) (by simp)).mpr ?_
    exact (jobPassed_iff_verdict (jobSeen_of_done w t hp h) hstatus).mpr
      ((jobVerdict_eq_none process status).mp hverdict)

/-- Without a signal and without the exit of a service, the gate of a job completes exactly
when it has taken the job from `waitpid` as the last member of its group. -/
theorem waitForJob_completes_iff (index timeout : ℕ) (w : World) (t : Trace)
    (schedule : List Turn) (process : ManagedProcess)
    (hprocess : w.supervisor.processes[index]? = some process) (halive : process.alive = true)
    (hstatus : process.exitStatus = none) (hexited : ¬HasExited index t)
    (hfailure : w.supervisor.startupFailure = none)
    (hservice : ¬ServiceExited (waitForJob index timeout ⟨w, schedule, t⟩).2.trace)
    (hsignal : ¬SignalSeen (waitForJob index timeout ⟨w, schedule, t⟩).2.trace) :
    ((waitForJob index timeout ⟨w, schedule, t⟩).1 = .value .completed ∧
      (waitForJob index timeout ⟨w, schedule, t⟩).2.state.supervisor.startupFailure = none) ↔
    JobPassed index process.pid (waitForJob index timeout ⟨w, schedule, t⟩).2.trace := by
  have hgate := gate_waitForJob index timeout process.pid ⟨w, schedule, t⟩
    ⟨⟨process, hprocess, rfl, halive, hstatus⟩, hexited, Or.inl hfailure⟩
  revert hgate hservice hsignal
  generalize waitForJob index timeout ⟨w, schedule, t⟩ = final
  obtain ⟨outcome, left⟩ := final
  intro hservice hsignal hgate
  have hopen : JobOpen index process.pid left.state left.trace →
      ¬JobPassed index process.pid left.trace := fun h => h.resolve_left hservice
  cases outcome with
  | value outcome =>
    cases outcome with
    | completed =>
      obtain ⟨hpassed, htrouble⟩ := hgate
      exact iff_of_true ⟨rfl, htrouble.resolve_right hservice⟩ hpassed
    | failed reason => exact iff_of_false (fun h => by cases h.1) (hopen hgate)
    | signal signal => exact absurd hgate hsignal
  | raised e => exact iff_of_false (fun h => by cases h.1) (hopen hgate)
  | pending => exact iff_of_false (fun h => by cases h.1) (hopen hgate)

/-- The setup job, alone in its group 108. -/
def setupWorld : World where
  supervisor := ⟨false, [⟨lit "setup", .runToCompletion, 108, true, none, false, none, none⟩], [],
    false, none⟩
  kernel := ⟨[⟨108, ⟨108, 0⟩, true, none⟩], 1, 0, 0, [], []⟩
  groups := [⟨108, 0⟩]

theorem waitForJob_completes_setup :
    ((waitForJob 0 (1000 * millisecond) ⟨setupWorld, setupSchedule, []⟩).1 = .value .completed ∧
      (waitForJob 0 (1000 * millisecond)
        ⟨setupWorld, setupSchedule, []⟩).2.state.supervisor.startupFailure = none) ↔
    JobPassed 0 108 (waitForJob 0 (1000 * millisecond) ⟨setupWorld, setupSchedule, []⟩).2.trace :=
  waitForJob_completes_iff 0 (1000 * millisecond) setupWorld [] setupSchedule
    ⟨lit "setup", .runToCompletion, 108, true, none, false, none, none⟩ rfl rfl rfl
    (by rintro ⟨_, _, hm⟩; cases hm) rfl (by decide +kernel) (by decide +kernel)

/-- The setup job forks a child that ends first. `waitpid` is asked when both are zombies,
and `choice` says which of them it hands out. -/
def straySchedule (choice : ℕ) : List Turn :=
  (List.range 40).map fun i => match i with
    | 20 => ⟨[.fork 108 200, .exit 200 0, .exit 108 0, .adopt 200], .choose 0⟩
    | 21 => ⟨[], .choose choice⟩
    | i => ⟨[], .choose (100 + i)⟩

def strayTrace (choice : ℕ) : Trace :=
  runTrace setupHost setupSpec setupKernel (straySchedule choice)

/-- The same exits, handed out in two orders. -/
theorem job_judged_by_order :
    ((∃ entry ∈ strayTrace 1, entry.action = .exited 0 0 true ∧
        entry.world.kernel.clock < 1000 * millisecond ∧
        ∀ p ∈ entry.world.kernel.table, p.status = some 0) ∧
      ¬ServiceExited (strayTrace 1) ∧ ¬SignalSeen (strayTrace 1) ∧
      Action.jobFailed 0 ∈ acts (strayTrace 1) ∧ Action.initializationFailed
        (lit "run-to-completion process setup left descendants in its process group") ∈
          acts (strayTrace 1)) ∧
    Action.jobSucceeded 0 ∈ acts (strayTrace 0) := by
  decide +kernel

/-! ### The service of a gate -/

/-- Unless a failure was recorded, the probe of the service is in the state that the results
consumed since `t₀` lead to. -/
inductive ServiceKnown (index : ℕ) (probe : ProbeState) (t₀ : Trace) (w : World) (t : Trace) : Prop
  | serving (process : ManagedProcess) (new : Trace)
      (hprocess : w.supervisor.processes[index]? = some process)
      (hkind : process.kind = .service) (halive : process.alive = true) (ht : t = new ++ t₀)
      (hprobe : process.probe = some (probe.fed (deliveries index new)))
  | failed (hpresent : index < w.supervisor.processes.length)
      (hfailed : w.supervisor.startupFailure.isSome = true)

variable {probe : ProbeState} {t₀ : Trace}

theorem deliveries_cons_other (entry : Entry) (t : Trace)
    (h : entry.action.concerns index = false) :
    deliveries index (entry :: t) = deliveries index t := by
  rw [deliveries]
  split
  · rename_i i success he
    rw [he] at h
    have hne : i ≠ index := by simpa [Action.concerns] using h
    rw [if_neg hne]
  · rfl

/-- Initialization goes on while the gate waits. -/
def Gating (index : ℕ) (probe : ProbeState) (t₀ : Trace) : Program.Assertion World Entry :=
  fun w t => w.supervisor.initializationComplete = false ∧ ServiceKnown index probe t₀ w t

theorem kept_gating (index : ℕ) (probe : ProbeState) (t₀ : Trace) :
    Kept (Gating index probe t₀) := by
  rintro a w t b w' t' hstep ⟨hearly, h⟩
  obtain ⟨hlength, hcomplete, hfailure⟩ := hstep.initialization
  refine ⟨hcomplete.trans hearly, ?_⟩
  cases h with
  | failed hpresent hfailed => exact .failed (hlength ▸ hpresent) (hfailure hfailed)
  | serving process new hp hkind halive ht hprobe =>
    have hpresent : index < w.supervisor.processes.length := (List.getElem?_eq_some_iff.mp hp).1
    cases hstep.touched hp with
    | untouched hprocess hsilent =>
      rcases hsilent with rfl | ⟨entry, rfl, hconcerns⟩
      · exact .serving process new hprocess hkind halive ht hprobe
      · refine .serving process (entry :: new) hprocess hkind halive (by rw [ht]; rfl) ?_
        rw [deliveries_cons_other entry new hconcerns]
        exact hprobe
    | exited _ _ _ _ _ _ _ _ _ hfailed _ =>
      exact .failed (hlength ▸ hpresent) (hfailed hkind (hcomplete.trans hearly))
    | probed state success _ hstate hprocess htrace =>
      have hsame : state = probe.fed (deliveries index new) :=
        Option.some.inj (hstate.symm.trans hprobe)
      refine .serving _ (⟨.probed index success, w'⟩ :: new) hprocess hkind halive
        (by rw [htrace, ht]; rfl) ?_
      rw [deliveries_cons_probed, if_pos rfl, fed_snoc, hsame]

/-- A drive of the gate has ended with the probe ready: the results consumed until then lead
to `Ready`. -/
def ReadyEnd (index : ℕ) (probe : ProbeState) (t₀ t : Trace) : Prop :=
  ∃ newer older w, t = newer ++ ⟨.finished .drive, w⟩ :: (older ++ t₀) ∧
    (probe.fed (deliveries index older)).health = .ready

theorem ReadyEnd.mono (new : Trace) (h : ReadyEnd index probe t₀ t) :
    ReadyEnd index probe t₀ (new ++ t) := by
  obtain ⟨newer, older, w, rfl, hready⟩ := h
  exact ⟨new ++ newer, older, w, (List.append_assoc _ _ _).symm, hready⟩

theorem readyEnd_cons (entry : Entry) (hne : entry.action ≠ .finished .drive) :
    ReadyEnd index probe t₀ (entry :: t) ↔ ReadyEnd index probe t₀ t := by
  refine ⟨fun ⟨newer, older, w, ht, hready⟩ => ?_, ReadyEnd.mono [entry]⟩
  cases newer with
  | nil =>
    obtain ⟨rfl, -⟩ := List.cons.inj ht
    exact absurd rfl hne
  | cons first newer => exact ⟨newer, older, w, (List.cons.inj ht).2, hready⟩

/-- At the end of a drive the gate looks at the health that decides. -/
theorem readyEnd_finished (new : Trace) (hnone : ¬ReadyEnd index probe t₀ (new ++ t₀)) :
    ReadyEnd index probe t₀ (⟨.finished .drive, w⟩ :: (new ++ t₀)) ↔
      (probe.fed (deliveries index new)).health = .ready := by
  refine ⟨fun ⟨newer, older, w', ht, hready⟩ => ?_, fun hready => ⟨[], new, w, rfl, hready⟩⟩
  cases newer with
  | nil =>
    obtain ⟨-, hsame⟩ := List.cons.inj ht
    rwa [List.append_cancel_right hsame]
  | cons first newer =>
    exact absurd ⟨newer, older, w', (List.cons.inj ht).2, hready⟩ hnone

/-! ### `wait_for_service` -/

/-- The gate fails or has not come to its end. -/
def ServiceOpen (index : ℕ) (probe : ProbeState) (t₀ : Trace) : Program.Assertion World Entry :=
  fun w t => w.supervisor.startupFailure.isSome = true ∨ ¬ReadyEnd index probe t₀ t

def ServiceOutcome (index : ℕ) (probe : ProbeState) (t₀ : Trace) :
    WaitOutcome → Program.Assertion World Entry
  | .completed => fun w t => w.supervisor.startupFailure = none ∧ ReadyEnd index probe t₀ t
  | .failed _ => ServiceOpen index probe t₀
  | .signal _ => fun _ t => SignalSeen t

/-- At the beginning of a round, and while `drive` works. -/
def ServiceWaiting (index : ℕ) (probe : ProbeState) (t₀ : Trace) :
    Program.Assertion World Entry := fun w t =>
  Gating index probe t₀ w t ∧ ¬ReadyEnd index probe t₀ t

theorem kept_serviceWaiting (index : ℕ) (probe : ProbeState) (t₀ : Trace) :
    Kept (ServiceWaiting index probe t₀) := by
  refine (kept_gating index probe t₀).and fun a w t b w' t' hstep h => ?_
  rcases hstep.trace_cases with rfl | ⟨entry, rfl, hne⟩
  · exact h
  · exact mt (readyEnd_cons entry (hne .drive)).mp h

theorem serviceOpen_of_waiting (w : World) (t : Trace)
    (h : ServiceWaiting index probe t₀ w t) : ServiceOpen index probe t₀ w t :=
  Or.inr h.2

theorem gating_present (h : Gating index probe t₀ w t) :
    w.supervisor.processes[index]? ≠ none := by
  cases h.2 with
  | serving process new hprocess => simp [hprocess]
  | failed hpresent => simp [List.getElem?_eq_getElem hpresent]

/-- What the gate finds when `drive` returns without a signal and without a failure. -/
theorem ready_iff_readyEnd {older : Trace} (hfailure : w.supervisor.startupFailure = none)
    (hp : w.supervisor.processes[index]? = some process)
    (h : ServiceWaiting index probe t₀ w older) :
    process.probe.any (fun probe => probe.health = .ready) = true ↔
      ReadyEnd index probe t₀ (⟨.finished .drive, w⟩ :: older) := by
  obtain ⟨⟨-, hknown⟩, hnone⟩ := h
  cases hknown with
  | failed _ hfailed =>
    rw [hfailure] at hfailed
    cases hfailed
  | serving other new hother _ _ ht hprobe =>
    obtain rfl : process = other := Option.some.inj (hp.symm.trans hother)
    subst ht
    rw [readyEnd_finished new hnone, hprobe]
    simp

theorem serviceWaiting_finished {older : Trace}
    (hnot : ¬ReadyEnd index probe t₀ (⟨.finished .drive, w⟩ :: older))
    (h : ServiceWaiting index probe t₀ w older) :
    ServiceWaiting index probe t₀ w (⟨.finished .drive, w⟩ :: older) := by
  obtain ⟨⟨hearly, hknown⟩, -⟩ := h
  refine ⟨⟨hearly, ?_⟩, hnot⟩
  cases hknown with
  | failed hpresent hfailed => exact .failed hpresent hfailed
  | serving process new hprocess hkind halive ht hprobe =>
    exact .serving process (⟨.finished .drive, w⟩ :: new) hprocess hkind halive
      (by rw [ht]; rfl) hprobe

theorem gate_waitForService (index timeout : ℕ) (probe : ProbeState) (t₀ : Trace) :
    Program.Triple (ServiceWaiting index probe t₀) (waitForService index timeout)
      (ServiceOutcome index probe t₀) (ServiceOpen index probe t₀) := by
  have hkept := kept_serviceWaiting index probe t₀
  have hin : SteadyIn (.triples (ServiceOpen index probe t₀)) (ServiceWaiting index probe t₀) :=
    hkept.steady.inTriples serviceOpen_of_waiting
  -- the test of the gate is the one on the results consumed so far
  have hlook : ∀ process w t, w.supervisor.startupFailure = none →
      w.supervisor.processes[index]? = some process →
      DriveDone (ServiceWaiting index probe t₀) none w t →
      (process.probe.any (fun probe => probe.health = .ready) = true ↔
        ReadyEnd index probe t₀ t) := by
    rintro process w t hnone hp ⟨older, rfl, h, -⟩
    exact ready_iff_readyEnd hnone hp h
  refine Program.Logic.triple (holds_waitForService (I := fun _ => ServiceWaiting index probe t₀)
    (D := fun _ => DriveDone (ServiceWaiting index probe t₀) none)
    (K := fun _ _ => ServiceWaiting index probe t₀) hin (fun _ _ h => h)
    { steady := fun _ => hin
      drive := fun _ wait => Program.Logic.post _
        (Program.triple_stop (kept_drive hkept wait) serviceOpen_of_waiting).holds ?_
      absent := fun _ w t habsent ⟨_, _, h, _⟩ => absurd habsent (gating_present h.1)
      failed := fun _ reason w t hfailure _ => Or.inl (by rw [hfailure, Option.isSome_some])
      ready := fun _ process w t hnone hp hready h =>
        ⟨trivial, hnone, ((hlook process w t hnone hp h).mp hready).mono [_]⟩
      looking := fun _ process w t hnone hp hready h => ?_
      looks := fun _ _ => hin
      late := fun _ _ w t _ h => serviceOpen_of_waiting w t h
      again := fun _ _ _ _ h => h })
  · intro signal w t h
    cases signal with
    | none => exact h
    | some signal => exact signalSeen_of_done h
  · have hnot := mt (hlook process w t hnone hp h).mpr hready
    obtain ⟨older, rfl, hwaiting, -⟩ := h
    exact serviceWaiting_finished hnot hwaiting

/-- Without a signal and without a startup failure, the gate of a service completes exactly
when a drive of it ends with the health `Ready`. -/
theorem waitForService_completes_iff (index timeout : ℕ) (w : World) (t : Trace)
    (schedule : List Turn) (process : ManagedProcess) (probe : ProbeState)
    (hprocess : w.supervisor.processes[index]? = some process)
    (hkind : process.kind = .service) (halive : process.alive = true)
    (hprobe : process.probe = some probe)
    (hearly : w.supervisor.initializationComplete = false)
    (hfailure :
      (waitForService index timeout ⟨w, schedule, t⟩).2.state.supervisor.startupFailure = none)
    (hsignal : ¬SignalSeen (waitForService index timeout ⟨w, schedule, t⟩).2.trace) :
    (waitForService index timeout ⟨w, schedule, t⟩).1 = .value .completed ↔
      ReadyEnd index probe t (waitForService index timeout ⟨w, schedule, t⟩).2.trace := by
  have hstart : ¬ReadyEnd index probe t t := by
    rintro ⟨newer, older, w', ht, -⟩
    have hlength := congrArg List.length ht
    simp only [List.length_append, List.length_cons] at hlength
    omega
  have hgate := gate_waitForService index timeout probe t ⟨w, schedule, t⟩
    ⟨⟨hearly, .serving process [] hprocess hkind halive rfl hprobe⟩, hstart⟩
  revert hgate hfailure hsignal
  generalize waitForService index timeout ⟨w, schedule, t⟩ = final
  obtain ⟨outcome, left⟩ := final
  intro hfailure hsignal hgate
  have hopen : ServiceOpen index probe t left.state left.trace →
      ¬ReadyEnd index probe t left.trace := by
    refine fun h => h.resolve_left ?_
    rw [hfailure]
    simp
  cases outcome with
  | value outcome =>
    cases outcome with
    | completed => exact iff_of_true rfl hgate.2
    | failed reason => exact iff_of_false (fun h => by cases h) (hopen hgate)
    | signal signal => exact absurd hgate hsignal
  | raised e => exact iff_of_false (fun h => by cases h) (hopen hgate)
  | pending => exact iff_of_false (fun h => by cases h) (hopen hgate)

/-- One success opens the gate, one failure makes the service unready. -/
def edgeProbe : Probe where
  path := lit "/health"
  port := 8080
  startupTimeoutMs := 10000
  periodMs := 1000
  timeoutMs := 1000
  failureThreshold := 1
  successThreshold := 1

def edgeWorld : World where
  supervisor := ⟨false, [⟨lit "server", .service, 108, true, none, false,
    some (.new edgeProbe), some false⟩], [], false, none⟩
  kernel := ⟨[⟨108, ⟨108, 0⟩, true, none⟩], 1, 0, 0, [0], []⟩
  groups := [⟨108, 0⟩]

/-- All results arrive between two drives. The clock passes the deadline much later. -/
def edgeSchedule (results : List Bool) : List Turn :=
  (List.range 60).map fun i => match i with
    | 20 => ⟨results.map (.probe 0 ·), .choose 0⟩
    | 40 => ⟨[.tick (10000 * millisecond)], .choose 0⟩
    | i => ⟨[], .choose (100 + i)⟩

theorem waitForService_completes_edge :
    (waitForService 0 (10000 * millisecond) ⟨edgeWorld, edgeSchedule [false, true], []⟩).1 =
        .value .completed ↔
      ReadyEnd 0 (.new edgeProbe) []
        (waitForService 0 (10000 * millisecond) ⟨edgeWorld, edgeSchedule [false, true], []⟩).2.trace :=
  waitForService_completes_iff 0 (10000 * millisecond) edgeWorld [] (edgeSchedule [false, true])
    ⟨lit "server", .service, 108, true, none, false, some (.new edgeProbe), some false⟩
    (.new edgeProbe) rfl rfl rfl rfl rfl (by decide +kernel) (by decide +kernel)

def edgeSpec : Spec :=
  ⟨3, [], [{ setupProcess (lit "server") .service none with readinessProbe := some edgeProbe }]⟩

def edgeTrace (results : List Bool) : Trace :=
  runTrace setupHost edgeSpec setupKernel (edgeSchedule results)

/-- The service is `Ready` when the first result has been applied, long before the deadline,
and the gate does not see it. -/
theorem ready_lost_in_drive :
    validate edgeSpec = .ok () ∧
    (∃ entry ∈ edgeTrace [true, false], entry.action = .probed 0 true ∧
      entry.world.kernel.clock = 0 ∧ entry.world.supervisor.processes[0]?.any (fun process =>
        process.probe.any fun probe => probe.health = .ready) = true) ∧
    ¬ServiceExited (edgeTrace [true, false]) ∧ ¬SignalSeen (edgeTrace [true, false]) ∧
    Action.probePassed 0 ∉ acts (edgeTrace [true, false]) ∧
    Action.initializationFailed (lit "readiness probe timed out for server after 10000ms") ∈
      acts (edgeTrace [true, false]) := by
  decide +kernel

end Sandcamp.Campd
