import Sandcamp.Campd.Cleanup
import Sandcamp.Campd.Frames
import Sandcamp.Campd.Gates

/-!
# The cleanup of lost jobs over whole runs

A job that its gate gives up while it runs must have a cleanup from then on. Only few places
of the supervisor touch the list of cleanups or record that a gate has failed; an assertion
about these is kept by all the rest (`Loose`).
-/

namespace Sandcamp.Campd
open Foundations

/-! ### Assertions about the cleanups -/

/-- A gate has failed, or initialization has. -/
def Action.decisive : Action → Bool
  | .jobFailed _ | .initializationFailed _ => true
  | _ => false

/-- The assertion looks at the list of cleanups and at decisive entries only. -/
structure Loose (P : Program.Assertion World Entry) : Prop where
  world : ∀ w w' t, w'.supervisor.cleanups = w.supervisor.cleanups → P w t → P w' t
  entry : ∀ w t action, action.decisive = false → P w t → P w (⟨action, w⟩ :: t)

section Interactions
variable {P : Program.Assertion World Entry} (hP : Loose P)
include hP

theorem Loose.framed : Framed P :=
  ⟨fun w w' t _ hcleanups h => hP.world w w' t hcleanups h, fun w t action hroutine h =>
    hP.entry w t action (by cases action <;> first | rfl | cases hroutine) h⟩

theorem Loose.open : Open P := fun w t _ _ h => hP.entry w t _ rfl h

/-- `spawn` has just ended. -/
def SpawnDone (P : Program.Assertion World Entry) : Program.Assertion World Entry := fun w t =>
  P w t ∧ (acts t).head? = some (.finished .spawn)

theorem loose_register (process : LaunchProcess) (group : GroupId) :
    Program.Triple P (register process group) (fun _ => SpawnDone P) P :=
  Program.Logic.triple (holds_register process group (S := fun _ => P) (U := fun _ => P)
    (fun w t h => ⟨trivial, hP.entry _ t _ rfl (hP.world w _ t rfl h)⟩)
    (fun _ w t h => ⟨trivial, hP.world w _ t rfl h⟩)
    fun _ w t h => ⟨trivial, hP.entry w t _ rfl h, rfl⟩)

theorem loose_spawn (process : LaunchProcess) (sandrun : Bytes) :
    Program.Triple P (spawn process sandrun) (fun _ => SpawnDone P) P :=
  framed_spawn hP.framed (fun _ _ h => h) (fun w t h => ⟨hP.entry w t _ rfl h, rfl⟩)
    (loose_register hP) process sandrun

end Interactions

/-! ### Lost jobs -/

/-- The group of a child that has not been waited for is reported as gone. -/
def Entry.losesLeader (entry : Entry) : Bool :=
  match entry.action with
  | .groupObserved group false =>
    entry.world.kernel.table.any fun p => p.pid = group && p.child
  | _ => false

def LeadersFound (t : Trace) : Prop := ∀ entry ∈ t, entry.losesLeader = false

instance (t : Trace) : Decidable (LeadersFound t) :=
  inferInstanceAs (Decidable (∀ entry ∈ t, entry.losesLeader = false))

/-- The gate of a job has failed while the supervisor had not reaped it, and the failure of
the initialization is still to be recorded. -/
def LostBefore (process : ManagedProcess) (t : Trace) : Prop :=
  ∃ between lost older i, t = between ++ lost :: older ∧
    (∀ reason, Action.initializationFailed reason ∉ acts between) ∧ lost.action = .jobFailed i ∧
    lost.world.supervisor.processes[i]? = some process ∧ process.alive = true

/-- From the failure of the initialization on, the group of the lost job has an entry until it
was observed gone or was sent `SIGKILL`. -/
def LostCleaned (w : World) (t : Trace) : Prop :=
  ∀ newer failure before reason process, t = newer ++ failure :: before →
    failure.action = .initializationFailed reason → LostBefore process before →
      failure.world.supervisor.Pending process.pid ∧ (w.supervisor.Pending process.pid ∨
        Action.groupObserved process.pid false ∈ acts newer ∨
        Action.signalled process.pid sigkill ∈ acts newer)

variable {w w' : World} {t t' : Trace} {process : ManagedProcess} {group : ℕ} {newer : Trace}

/-- As `LostCleaned` has it, with what the `killed` flag of the entry stands for. -/
def Held (group : ℕ) (w : World) (newer : Trace) : Prop :=
  (∃ cleanup ∈ w.supervisor.cleanups, cleanup.group = group ∧
    (cleanup.killed = true → Action.signalled group sigkill ∈ acts newer)) ∨
  Action.groupObserved group false ∈ acts newer ∨ Action.signalled group sigkill ∈ acts newer

def Watched (w : World) (t : Trace) : Prop :=
  ∀ newer failure before reason process, t = newer ++ failure :: before →
    failure.action = .initializationFailed reason → LostBefore process before →
      failure.world.supervisor.Pending process.pid ∧ Held process.pid w newer

/-- The lost jobs have their cleanups, and no entry is given up before its group is killed. -/
structure Cleaned (w : World) (t : Trace) : Prop where
  watched : Watched w t
  ordered : ∀ cleanup ∈ w.supervisor.cleanups, cleanup.killAt ≤ cleanup.giveUpAt

/-- Outside of gates no lost job waits for the failure to be recorded. -/
def Sealed : Program.Assertion World Entry := fun w t =>
  LeadersFound t → Cleaned w t ∧ ∀ process, ¬LostBefore process t

/-- After a gate has failed: the lost job has got its entry. -/
def Owed : Program.Assertion World Entry := fun w t =>
  LeadersFound t → Cleaned w t ∧ ∀ process, LostBefore process t →
    ∃ cleanup ∈ w.supervisor.cleanups, cleanup.group = process.pid ∧ cleanup.killed = false

/-- Wherever a run stops. -/
def Promised : Program.Assertion World Entry := fun w t => LeadersFound t → LostCleaned w t

theorem leadersFound_of_cons {entry : Entry} (h : LeadersFound (entry :: t)) : LeadersFound t :=
  fun e he => h e (List.mem_cons_of_mem _ he)

theorem lostCleaned_of_watched (h : Watched w t) : LostCleaned w t := by
  intro newer failure before reason process ht he hlost
  obtain ⟨hpending, hheld⟩ := h newer failure before reason process ht he hlost
  exact ⟨hpending, hheld.imp_left fun ⟨cleanup, hm, hgroup, _⟩ => ⟨cleanup, hm, hgroup⟩⟩

theorem owed_of_sealed (w : World) (t : Trace) (h : Sealed w t) : Owed w t := fun hfound =>
  ⟨(h hfound).1, fun process hlost => absurd hlost ((h hfound).2 process)⟩

theorem lostBefore_cons (action : Action) (hplain : action.decisive = false) :
    LostBefore process (⟨action, w⟩ :: t) ↔ LostBefore process t := by
  constructor
  · rintro ⟨between, lost, older, i, ht, hnone, he, hrest⟩
    cases between with
    | nil =>
      obtain ⟨rfl, -⟩ := List.cons.inj ht
      have hsame : action = .jobFailed i := he
      rw [hsame] at hplain
      cases hplain
    | cons first between =>
      obtain ⟨rfl, hrest'⟩ := List.cons.inj ht
      exact ⟨between, lost, older, i, hrest', fun reason hm =>
        hnone reason (mem_acts_of_mem [_] hm), he, hrest⟩
  · rintro ⟨between, lost, older, i, rfl, hnone, hrest⟩
    refine ⟨⟨action, w⟩ :: between, lost, older, i, rfl, fun reason hm => ?_, hrest⟩
    rcases (mem_acts_cons _ _ _).mp hm with he | hm
    · have hsame : action = .initializationFailed reason := he.symm
      rw [hsame] at hplain
      cases hplain
    · exact hnone reason hm

theorem Held.cons (entry : Entry) (h : Held group w newer) : Held group w (entry :: newer) := by
  rcases h with ⟨cleanup, hm, hgroup, hkilled⟩ | hgone | hsignalled
  · exact Or.inl ⟨cleanup, hm, hgroup, fun hk => mem_acts_of_mem [_] (hkilled hk)⟩
  · exact Or.inr (Or.inl (mem_acts_of_mem [_] hgone))
  · exact Or.inr (Or.inr (mem_acts_of_mem [_] hsignalled))

theorem watched_cons (entry : Entry) (hne : ∀ reason, entry.action ≠ .initializationFailed reason)
    (h : Watched w t) : Watched w (entry :: t) := by
  intro newer failure before reason process ht he hlost
  cases newer with
  | nil =>
    obtain ⟨rfl, -⟩ := List.cons.inj ht
    exact absurd he (hne reason)
  | cons first newer =>
    obtain ⟨rfl, hrest⟩ := List.cons.inj ht
    obtain ⟨hpending, hheld⟩ := h newer failure before reason process hrest he hlost
    exact ⟨hpending, hheld.cons _⟩

theorem cleaned_entry (action : Action) (hplain : action.decisive = false) (h : Cleaned w t) :
    Cleaned w (⟨action, w⟩ :: t) where
  watched := by
    refine watched_cons _ (fun reason he => ?_) h.watched
    have hsame : action = .initializationFailed reason := he
    rw [hsame] at hplain
    cases hplain
  ordered := h.ordered

theorem cleaned_world (hsame : w'.supervisor.cleanups = w.supervisor.cleanups)
    (h : Cleaned w t) : Cleaned w' t := by
  refine ⟨fun newer failure before reason process ht he hlost => ?_, hsame ▸ h.ordered⟩
  obtain ⟨hpending, hheld⟩ := h.watched newer failure before reason process ht he hlost
  exact ⟨hpending, by rw [Held, hsame]; exact hheld⟩

theorem sealed_loose : Loose Sealed where
  world := fun _ _ _ hsame h hfound =>
    ⟨cleaned_world hsame (h hfound).1, (h hfound).2⟩
  entry := fun _ _ action hplain h hfound => by
    obtain ⟨hcleaned, hnone⟩ := h (leadersFound_of_cons hfound)
    exact ⟨cleaned_entry action hplain hcleaned,
      fun process => mt (lostBefore_cons action hplain).mp (hnone process)⟩

/-! ### What `drive` does to the cleanups -/

theorem kept_of_loose {P : Program.Assertion World Entry} (hP : Loose P)
    (hscheduled : ∀ (w : World) (t : Trace) (cleanup : PendingCleanup),
      cleanup.killAt ≤ cleanup.giveUpAt → P w t → P { w with supervisor := { w.supervisor with
        cleanups := w.supervisor.cleanups ++ [cleanup] } } t)
    (hswept : ∀ (w : World) (during before : Trace) (kept : List PendingCleanup),
      (∀ entry ∈ during, entry.action.quiet = true) →
      (∀ left ∈ kept, ∃ cleanup ∈ w.supervisor.cleanups, Remnant cleanup left) →
      (∀ cleanup ∈ w.supervisor.cleanups, Swept kept during cleanup) → P w (during ++ before) →
        P { w with supervisor := { w.supervisor with cleanups := kept } } (during ++ before)) :
    Kept P := by
  intro a w t b w' t' hstep h
  cases hstep with
  | turn | receive | release | refreshed => exact hP.world w _ _ rfl h
  | observed | signalled | abandoned | signalObserved => exact hP.entry w _ _ rfl h
  | exited | probed => exact hP.entry _ _ _ rfl (hP.world w _ _ rfl h)
  | scheduled _ _ index process cleanup _ _ _ _ _ hordered _ =>
    exact hscheduled w t cleanup hordered h
  | swept _ during before kept hquiet hremnants hswept' =>
    exact hswept w during before kept hquiet hremnants hswept' h

/-- What a sweep records comes after every failure of the initialization. -/
theorem sweep_newer {during before newer older : Trace} {failure : Entry}
    (hquiet : ∀ entry ∈ during, entry.action.quiet = true)
    (hfailure : failure.action.quiet = false)
    (h : during ++ before = newer ++ failure :: older) : ∃ rest, newer = during ++ rest := by
  rcases List.append_eq_append_iff.mp h with ⟨rest, hnewer, -⟩ | ⟨rest, hduring, hrest⟩
  · exact ⟨rest, hnewer⟩
  · cases rest with
    | nil => exact ⟨[], by rw [hduring, List.append_nil, List.append_nil]⟩
    | cons first rest =>
      obtain ⟨rfl, -⟩ := List.cons.inj hrest
      have hloud := hquiet failure (hduring ▸ List.mem_append_right newer List.mem_cons_self)
      rw [hfailure] at hloud
      cases hloud

theorem held_swept {during rest : Trace} {kept : List PendingCleanup}
    (hordered : ∀ cleanup ∈ w.supervisor.cleanups, cleanup.killAt ≤ cleanup.giveUpAt)
    (hswept : ∀ cleanup ∈ w.supervisor.cleanups, Swept kept during cleanup)
    (h : Held group w (during ++ rest)) :
    Held group { w with supervisor := { w.supervisor with cleanups := kept } }
      (during ++ rest) := by
  have hduring : ∀ action, action ∈ acts during → action ∈ acts (during ++ rest) := by
    intro action hm
    rw [acts, List.map_append]
    exact List.mem_append_left _ hm
  rcases h with ⟨cleanup, hm, rfl, hkilled⟩ | hdone
  · rcases hswept cleanup hm with ⟨left, hl, hremnant, hleft⟩ | hgone | hsent | hold | hlate
    · have hgroup : left.group = cleanup.group := by rw [hremnant]
      refine Or.inl ⟨left, hl, hgroup, fun hk => ?_⟩
      exact (hleft hk).elim hkilled (hduring _)
    · exact Or.inr (Or.inl (hduring _ hgone))
    · exact Or.inr (Or.inr (hduring _ hsent))
    · exact Or.inr (Or.inr (hkilled hold))
    · have hle := hordered cleanup hm
      omega
  · exact Or.inr hdone

theorem cleaned_scheduled (cleanup : PendingCleanup) (hle : cleanup.killAt ≤ cleanup.giveUpAt)
    (h : Cleaned w t) : Cleaned { w with supervisor := { w.supervisor with
      cleanups := w.supervisor.cleanups ++ [cleanup] } } t := by
  refine ⟨fun newer failure older reason process ht he hlost => ?_, fun c hc => ?_⟩
  · obtain ⟨hpending, hheld⟩ := h.watched newer failure older reason process ht he hlost
    refine ⟨hpending, hheld.imp_left ?_⟩
    rintro ⟨c, hm, hrest⟩
    exact ⟨c, List.mem_append_left _ hm, hrest⟩
  · rcases List.mem_append.mp hc with hc | hc
    · exact h.ordered c hc
    · rw [List.mem_singleton.mp hc]
      exact hle

theorem kept_sealed : Kept Sealed := by
  refine kept_of_loose sealed_loose (fun w t cleanup hle h hfound => ?_)
    fun w during before kept hquiet hremnants hswept h hfound => ?_
  · exact ⟨cleaned_scheduled cleanup hle (h hfound).1, (h hfound).2⟩
  · obtain ⟨⟨hwatched, hordered⟩, hnone⟩ := h hfound
    refine ⟨⟨fun newer failure older reason process ht he hlost => ?_, fun l hl => ?_⟩, hnone⟩
    · obtain ⟨hpending, hheld⟩ := hwatched newer failure older reason process ht he hlost
      obtain ⟨rest, rfl⟩ := sweep_newer hquiet (by rw [he]; rfl) ht
      exact ⟨hpending, held_swept hordered hswept hheld⟩
    · obtain ⟨c, hc, hremnant⟩ := hremnants l hl
      rw [hremnant]
      exact hordered c hc

/-! ### The failure of the initialization -/

theorem sealed_failed (reason : Bytes) (h : Owed w t) :
    Sealed w (⟨.initializationFailed reason, w⟩ :: t) := by
  intro hfound
  obtain ⟨⟨hwatched, hordered⟩, howed⟩ := h (leadersFound_of_cons hfound)
  refine ⟨⟨fun newer failure before reason' process ht he hlost => ?_, hordered⟩, ?_⟩
  · cases newer with
    | nil =>
      obtain ⟨rfl, rfl⟩ := List.cons.inj ht
      obtain ⟨cleanup, hm, hgroup, hfresh⟩ := howed process hlost
      refine ⟨⟨cleanup, hm, hgroup⟩, Or.inl ⟨cleanup, hm, hgroup, fun hk => ?_⟩⟩
      rw [hfresh] at hk
      cases hk
    | cons first newer =>
      obtain ⟨rfl, hrest⟩ := List.cons.inj ht
      obtain ⟨hpending, hheld⟩ := hwatched newer failure before reason' process hrest he hlost
      exact ⟨hpending, hheld.cons _⟩
  · rintro process ⟨between, lost, older, i, ht, hnone, he, -⟩
    cases between with
    | nil =>
      obtain ⟨rfl, -⟩ := List.cons.inj ht
      cases he
    | cons first between =>
      obtain ⟨rfl, -⟩ := List.cons.inj ht
      exact hnone reason List.mem_cons_self

theorem owed_world (hsame : w'.supervisor.cleanups = w.supervisor.cleanups) (h : Owed w t) :
    Owed w' t := fun hfound =>
  ⟨cleaned_world hsame (h hfound).1, fun process hlost => hsame ▸ (h hfound).2 process hlost⟩

theorem promised_of_owed (w : World) (t : Trace) (h : Owed w t) : Promised w t := fun hfound =>
  lostCleaned_of_watched (h hfound).1.watched

theorem promised_of_sealed (w : World) (t : Trace) (h : Sealed w t) : Promised w t :=
  promised_of_owed w t (owed_of_sealed w t h)

theorem watch_failStartup (reason : Bytes) :
    Program.Triple Owed (failStartup reason) (fun _ => Sealed) Promised :=
  framed_failStartup (O := Owed) sealed_loose.framed (fun _ _ _ _ => owed_world)
    (fun reason _ _ => sealed_failed reason) reason

/-! ### The job of a gate has no cleanup -/

def Runs (index : ℕ) (w : World) : Prop :=
  ∃ process, w.supervisor.processes[index]? = some process ∧ process.alive = true

/-- While the job of the gate runs, its group number is nobody else's: no other running process
has it, and no process reaped since the gate began had it. So no cleanup is for it. -/
structure Alone (index group : ℕ) (t₀ : Trace) (w : World) (t : Trace) : Prop where
  present : ∃ process, w.supervisor.processes[index]? = some process ∧ process.pid = group
  reaped : ∃ new, t = new ++ t₀ ∧ (Runs index w → ∀ (j : ℕ) (process : ManagedProcess),
    HasExited j new → w.supervisor.processes[j]? = some process → process.pid ≠ group)
  solo : Runs index w → ∀ (j : ℕ) (process : ManagedProcess),
    w.supervisor.processes[j]? = some process → process.alive = true → process.pid = group →
      j = index
  free : Runs index w → ¬w.supervisor.Pending group

variable {index : ℕ} {t₀ : Trace} {a b : Phase}

/-- Where a process comes from. -/
theorem Step.origin (h : Step a w t b w' t') {j : ℕ} {left : ManagedProcess}
    (hleft : w'.supervisor.processes[j]? = some left) :
    ∃ process, w.supervisor.processes[j]? = some process ∧ left.pid = process.pid ∧
      (left.alive = true → process.alive = true) := by
  have hlt : j < w.supervisor.processes.length := by
    rw [← h.initialization.1]
    exact (List.getElem?_eq_some_iff.mp hleft).1
  obtain ⟨process, hp⟩ : ∃ process, w.supervisor.processes[j]? = some process :=
    ⟨_, List.getElem?_eq_getElem hlt⟩
  refine ⟨process, hp, ?_⟩
  cases h.touched hp with
  | untouched hprocess =>
    rw [hprocess] at hleft
    obtain rfl := Option.some.inj hleft
    exact ⟨rfl, fun ha => ha⟩
  | exited _ other halive hprocess hpid =>
    rw [hprocess] at hleft
    obtain rfl := Option.some.inj hleft
    exact ⟨hpid, fun _ => halive⟩
  | probed _ _ halive _ hprocess =>
    rw [hprocess] at hleft
    obtain rfl := Option.some.inj hleft
    exact ⟨rfl, fun _ => halive⟩

theorem Step.runs (h : Step a w t b w' t') (hruns : Runs index w') : Runs index w := by
  obtain ⟨left, hleft, halive⟩ := hruns
  obtain ⟨process, hp, -, hback⟩ := h.origin hleft
  exact ⟨process, hp, hback halive⟩

/-- An exit is recorded for a process that ran, and that runs no longer. -/
theorem Step.exit_recorded {j status : ℕ} {residual : Bool} {entry : Entry}
    (h : Step a w t b w' t') (ht : t' = entry :: t) (he : entry.action = .exited j status residual)
    (hp : w.supervisor.processes[j]? = some process) : process.alive = true ∧ ¬Runs j w' := by
  cases h.touched hp with
  | untouched _ hsilent =>
    rcases hsilent with hsame | ⟨other, hother, hconcerns⟩
    · rw [hsame] at ht
      exact absurd ht (by simp)
    · rw [ht] at hother
      obtain rfl := (List.cons.inj hother).1
      rw [he] at hconcerns
      simp [Action.concerns] at hconcerns
  | exited _ left halive hprocess _ _ hdead =>
    refine ⟨halive, ?_⟩
    rintro ⟨other, hother, hruns⟩
    rw [hprocess] at hother
    rw [← Option.some.inj hother, hdead] at hruns
    cases hruns
  | probed _ _ _ _ _ htrace =>
    rw [htrace] at ht
    obtain rfl := (List.cons.inj ht).1
    cases he

/-- The exit that a cleanup follows is younger than the last finished step. -/
theorem recent_exit {new : Trace} {a b e f : Action} {rest : List Action}
    (hacts : acts (new ++ t₀) = a :: b :: e :: rest) (hlast : (acts t₀).head? = some f)
    (ha : a ≠ f) (hb : b ≠ f) (he : e ≠ f) : e ∈ acts new := by
  obtain ⟨old, hold⟩ : ∃ old, acts t₀ = f :: old := by
    cases h : acts t₀ with
    | nil =>
      rw [h] at hlast
      cases hlast
    | cons first old =>
      rw [h] at hlast
      exact ⟨old, by rw [Option.some.inj hlast]⟩
  rw [acts, List.map_append] at hacts
  change acts new ++ acts t₀ = _ at hacts
  rw [hold] at hacts
  generalize acts new = actions at hacts ⊢
  rcases actions with _ | ⟨x, _ | ⟨y, _ | ⟨z, more⟩⟩⟩
  · exact absurd (List.cons.inj hacts).1.symm ha
  · exact absurd (List.cons.inj (List.cons.inj hacts).2).1.symm hb
  · exact absurd (List.cons.inj (List.cons.inj (List.cons.inj hacts).2).2).1.symm he
  · rw [(List.cons.inj (List.cons.inj (List.cons.inj hacts).2).2).1]
    simp

theorem kept_alone (hlast : ∃ step, (acts t₀).head? = some (.finished step)) :
    Kept (Alone index group t₀) := by
  intro a w t b w' t' hstep h
  obtain ⟨process, hp, hpid⟩ := h.present
  obtain ⟨new, ht, hreaped⟩ := h.reaped
  refine
    { present := ?_
      reaped := ?_
      solo := fun hruns j left hleft hlive hgroup => ?_
      free := fun hruns => ?_ }
  · cases hstep.touched hp with
    | untouched hprocess => exact ⟨process, hprocess, hpid⟩
    | exited _ left _ hprocess hleft => exact ⟨left, hprocess, hleft.trans hpid⟩
    | probed _ _ _ _ hprocess => exact ⟨_, hprocess, hpid⟩
  · -- what was reaped before, and what this step reaps
    have hold : Runs index w' → ∀ (j : ℕ) (left : ManagedProcess), HasExited j new →
        w'.supervisor.processes[j]? = some left → left.pid ≠ group := by
      intro hruns j left hexited hleft
      obtain ⟨other, ho, hsame, -⟩ := hstep.origin hleft
      rw [hsame]
      exact hreaped (hstep.runs hruns) j other hexited ho
    rcases hstep.trace_cases with rfl | ⟨entry, rfl, -⟩
    · exact ⟨new, ht, hold⟩
    · refine ⟨entry :: new, by rw [ht]; rfl, fun hruns j left ⟨s, r, hm⟩ hleft => ?_⟩
      rcases (mem_acts_cons _ _ _).mp hm with he | hm
      · obtain ⟨other, ho, hsame, -⟩ := hstep.origin hleft
        obtain ⟨hlive, hgone⟩ := hstep.exit_recorded rfl he.symm ho
        intro hgroup
        obtain rfl := h.solo (hstep.runs hruns) j other ho hlive (hsame.symm.trans hgroup)
        exact hgone hruns
      · exact hold hruns j left ⟨s, r, hm⟩ hleft
  · obtain ⟨other, ho, hsame, hback⟩ := hstep.origin hleft
    exact h.solo (hstep.runs hruns) j other ho (hback hlive) (hsame.symm.trans hgroup)
  · have hfree := h.free (hstep.runs hruns)
    cases hstep with
    | turn | receive | release | observed | signalled | abandoned | signalObserved | exited
    | probed | refreshed => exact hfree
    | scheduled _ _ j other cleanup ho hacts hdead hgroup _ _ _ =>
      rintro ⟨c, hc, hcgroup⟩
      rcases List.mem_append.mp hc with hc | hc
      · exact hfree ⟨c, hc, hcgroup⟩
      · rw [List.mem_singleton.mp hc] at hcgroup
        obtain ⟨status, rest, hacts⟩ := hacts
        obtain ⟨step, hlast⟩ := hlast
        rw [ht] at hacts
        have hexited := recent_exit hacts hlast (by simp) (by simp) (by simp)
        exact hreaped hruns j other ⟨status, true, hexited⟩ ho (hgroup.symm.trans hcgroup)
    | swept _ during before kept _ hremnants _ =>
      rintro ⟨left, hl, hleft⟩
      obtain ⟨c, hc, hremnant⟩ := hremnants left hl
      refine hfree ⟨c, hc, ?_⟩
      rw [← hleft, hremnant]

theorem alone_entry (action : Action) (hn : action.neutral = true)
    (h : Alone index group t₀ w t) : Alone index group t₀ w (⟨action, w⟩ :: t) := by
  obtain ⟨new, rfl, hreaped⟩ := h.reaped
  refine { h with reaped := ⟨⟨action, w⟩ :: new, rfl, fun hruns j other hexited => ?_⟩ }
  rw [hasExited_cons j _ _ hn] at hexited
  exact hreaped hruns j other hexited

/-! ### The cleanup of a lost job -/

/-- The gate has just given `process` up. -/
structure Losing (process : ManagedProcess) (w : World) (t : Trace) : Prop where
  running : process.alive = true →
    ¬w.supervisor.Pending process.pid ∧ w.kernel.HasChild process.pid
  lost : LeadersFound t → Cleaned w t ∧ ∀ other, LostBefore other t → other = process

theorem losing_steady : Steady (Losing process) := fun w _ events h =>
  ⟨fun ha => ⟨(h.running ha).1, Kernel.hasChild_applyAll events (h.running ha).2⟩,
    fun hfound => ⟨cleaned_world (w := w) rfl (h.lost hfound).1, (h.lost hfound).2⟩⟩

theorem promised_of_losing (w : World) (t : Trace) (h : Losing process w t) : Promised w t :=
  fun hfound => lostCleaned_of_watched (h.lost hfound).1.watched

/-- A job that was reaped is owed nothing. -/
theorem owed_of_dead (hdead : process.alive = false) (w : World) (t : Trace)
    (h : Losing process w t) : Owed w t := by
  refine fun hfound => ⟨(h.lost hfound).1, fun other hlost => ?_⟩
  obtain rfl := (h.lost hfound).2 other hlost
  obtain ⟨_, _, _, _, _, _, _, _, halive⟩ := hlost
  rw [hdead] at halive
  cases halive

theorem losing_entry (action : Action) (hplain : action.decisive = false)
    (h : Losing process w t) : Losing process w (⟨action, w⟩ :: t) := by
  refine ⟨h.running, fun hfound => ?_⟩
  obtain ⟨hcleaned, hlost⟩ := h.lost (leadersFound_of_cons hfound)
  exact ⟨cleaned_entry action hplain hcleaned,
    fun other hother => hlost other ((lostBefore_cons action hplain).mp hother)⟩

theorem watch_scheduleCleanup (halive : process.alive = true) :
    Program.Triple (Losing process) (scheduleCleanup process.pid) (fun _ => Owed) Promised := by
  have hsteady : SteadyIn (.triples Promised) (Losing process) :=
    losing_steady.inTriples promised_of_losing
  refine Program.Logic.triple (holds_scheduleCleanup process.pid (S := Losing process)
    (A := fun alive w t => (LeadersFound t → alive = true) ∧ Losing process w t) hsteady
    (fun w t h => ⟨trivial, fun hfound => ?_, losing_entry _ rfl h⟩) ?_
    ⟨fun w t events h => ⟨trivial, h.1, losing_steady w t events h.2⟩,
      fun w t h => promised_of_losing w t h.2⟩
    (fun w t _ h => ⟨trivial, losing_entry _ rfl h.2⟩) hsteady
    fun w t h => ⟨trivial, fun hfound => ?_⟩)
  · -- the leader has not been waited for, so the group is found
    have hhead := hfound _ List.mem_cons_self
    by_contra hgone
    rw [Bool.not_eq_true] at hgone
    obtain ⟨p, hp, hpid, hchild⟩ := (h.running halive).2
    simp only [Entry.losesLeader, hgone, List.any_eq_false] at hhead
    exact hhead p hp (by simp [hpid, hchild])
  · intro alive w t hskip h hleaders
    exfalso
    rcases hskip with hgone | hpending
    · rw [h.1 hleaders] at hgone
      cases hgone
    · exact (h.2.running halive).1 hpending
  · obtain ⟨hcleaned, hlost⟩ := h.lost hfound
    refine ⟨cleaned_scheduled _ (Nat.le_add_right _ _) hcleaned, fun other hother => ?_⟩
    rw [hlost other hother]
    exact ⟨_, List.mem_append_right _ List.mem_cons_self, rfl, rfl⟩

/-! ### The gates -/

variable {launch : List CommonProcess} {k : ℕ} {declared : LaunchProcess}

/-- While the gate of the job at `k` waits. -/
def Guarding (launch : List CommonProcess) (k group : ℕ) (t₀ : Trace) :
    Program.Assertion World Entry := fun w t =>
  Stage launch (k + 1) (k + 1) k w t ∧ Alone k group t₀ w t ∧ Sealed w t

theorem kept_guarded (hlast : ∃ step, (acts t₀).head? = some (.finished step)) :
    Kept fun w t => Alone k group t₀ w t ∧ Sealed w t :=
  (kept_alone hlast).and kept_sealed

theorem guarding_steady (hlast : ∃ step, (acts t₀).head? = some (.finished step)) :
    Steady (Guarding launch k group t₀) := fun w t events h =>
  ⟨stage_stable.steady w t events h.1, (kept_guarded hlast).steady w t events h.2⟩

theorem watch_drive_job (hlast : ∃ step, (acts t₀).head? = some (.finished step)) (wait : ℕ) :
    Program.Triple (Guarding launch k group t₀) (drive wait)
      (Unless (fun _ => Sealed) (Guarding launch k group t₀)) Promised := by
  refine Program.triple_stop (Program.triple_post _ (Program.triple_and (triple_drive_stage wait)
    (kept_drive (kept_guarded hlast) wait)) fun signal w t h => ?_)
    fun w t h => promised_of_sealed w t h.2.2
  obtain ⟨hstage, older, rfl, hkept, -⟩ := h
  have hsealed : Sealed w (⟨.finished .drive, w⟩ :: older) :=
    sealed_loose.entry w older _ rfl hkept.2
  cases signal with
  | none => exact ⟨hstage, alone_entry _ rfl hkept.1, hsealed⟩
  | some signal => exact hsealed

theorem losing_of_guarding (hp : w.supervisor.processes[k]? = some process)
    (h : Guarding launch k group t₀ w t) : Losing process w (⟨.jobFailed k, w⟩ :: t) := by
  obtain ⟨hstage, halone, hsealed⟩ := h
  refine ⟨fun halive => ?_, fun hfound => ?_⟩
  · obtain ⟨other, ho, hgroup⟩ := halone.present
    obtain rfl : process = other := Option.some.inj (hp.symm.trans ho)
    rw [hgroup]
    refine ⟨halone.free ⟨process, hp, halive⟩, ?_⟩
    rw [← hgroup]
    exact hstage.inv.children k process hp halive (by simp)
  · obtain ⟨hcleaned, hnone⟩ := hsealed (leadersFound_of_cons hfound)
    refine ⟨⟨watched_cons _ (by simp) hcleaned.watched, hcleaned.ordered⟩, ?_⟩
    rintro other ⟨between, lost, older, i, ht, hbetween, he, hother, halive⟩
    cases between with
    | nil =>
      obtain ⟨rfl, -⟩ := List.cons.inj ht
      obtain rfl := Action.jobFailed.inj he
      exact Option.some.inj (hother.symm.trans hp)
    | cons first between =>
      obtain ⟨rfl, hrest⟩ := List.cons.inj ht
      exact absurd ⟨between, lost, older, i, hrest, fun reason hm =>
        hbetween reason (mem_acts_of_mem [_] hm), he, hother, halive⟩ (hnone other)

theorem watch_waitForJob (hlast : ∃ step, (acts t₀).head? = some (.finished step))
    (timeout : ℕ) :
    Program.Triple (Guarding launch k group t₀) (waitForJob k timeout) (Leaves Sealed Owed)
      Promised :=
  course_waitForJob (J := Losing) sealed_loose.framed promised_of_sealed (guarding_steady hlast)
    (fun _ _ h => h.2.2) (fun _ _ h => h.1) (watch_drive_job hlast)
    (fun _ _ _ hp h => losing_of_guarding hp h) (fun _ halive => watch_scheduleCleanup halive)
    (fun _ w t hdead h => owed_of_dead hdead w t h) timeout

theorem watch_drive (wait : ℕ) : Program.Triple Sealed (drive wait) (fun _ => Sealed) Promised := by
  refine Program.triple_stop (Program.triple_post _ (kept_drive kept_sealed wait)
    fun signal w t h => ?_) promised_of_sealed
  obtain ⟨older, rfl, hsealed, -⟩ := h
  exact sealed_loose.entry w older _ rfl hsealed

theorem watch_waitForService (index timeout : ℕ) :
    Program.Triple Sealed (waitForService index timeout) (fun _ => Sealed) Promised :=
  framed_waitForService sealed_loose.framed promised_of_sealed watch_drive index timeout

/-- The beginning of the gate of a job that has just been spawned without a cleanup pending. -/
theorem guarding_of_spawned {managed : ManagedProcess}
    (hp : w.supervisor.processes[k]? = some managed)
    (hstage : Stage launch (k + 1) (k + 1) k w t) (hsealed : Sealed w t)
    (hnone : w.supervisor.cleanups = []) : Guarding launch k managed.pid t w t := by
  refine ⟨hstage, ⟨⟨managed, hp, rfl⟩, ⟨[], rfl, fun _ j other hexited => ?_⟩, ?_, ?_⟩, hsealed⟩
  · obtain ⟨_, _, hm⟩ := hexited
    cases hm
  · rintro ⟨process, hprocess, halive⟩ j other ho hlive hpid
    obtain rfl : managed = process := Option.some.inj (hp.symm.trans hprocess)
    exact hstage.inv.distinct j k other managed ho hp hlive halive hpid
  · rintro - ⟨cleanup, hm, -⟩
    rw [hnone] at hm
    cases hm

/-- A process has been spawned; its gate comes next. -/
def Admitted (launch : List CommonProcess) (k : ℕ) : Program.Assertion World Entry := fun w t =>
  Stage launch (k + 1) (k + 1) k w t ∧
    SpawnDone (fun w t => Sealed w t ∧ w.supervisor.cleanups = []) w t

theorem watch_passGate :
    Program.Triple (Admitted launch k) (passGate declared k) (Leaves Sealed Owed) Promised := by
  have hstop : ∀ w t, Admitted launch k w t → Promised w t := fun w t h =>
    promised_of_sealed w t h.2.1.1
  refine Program.Logic.triple (holds_passGate declared k (fun _ _ _ => ?_)
    (fun _ _ w t h => h.2.1.1) (fun timeout _ _ => ?_) fun _ _ => hstop)
  · refine Program.Logic.conseq _ (watch_waitForService k _).holds (fun w t h => h.2.1.1)
      fun outcome w t h => ?_
    cases outcome with
    | failed reason => exact owed_of_sealed w t h
    | completed => exact h
    | signal signal => exact h
  · refine Program.Logic.ghost _ fun w₀ t₀ h => ?_
    obtain ⟨hstage, ⟨hsealed, hnone⟩, hlast⟩ := h
    have hlt : k < w₀.supervisor.processes.length := by
      rw [hstage.registered]
      exact Nat.lt_succ_self k
    have hp := List.getElem?_eq_getElem hlt
    have hstart : ∀ w t, w = w₀ ∧ t = t₀ →
        Guarding launch k w₀.supervisor.processes[k].pid t₀ w t := by
      rintro w t ⟨rfl, rfl⟩
      exact guarding_of_spawned hp hstage hsealed hnone
    exact Program.Logic.pre _ (watch_waitForJob ⟨.spawn, hlast⟩ _).holds hstart

/-! ### Whole runs -/

theorem watch_shutdown (signal : ℕ) :
    Program.Triple Sealed (shutdown signal) (fun _ => Promised) Promised :=
  Program.triple_post _ (Program.triple_stop (framed_shutdown sealed_loose.framed
    sealed_loose.framed sealed_loose.open (fun _ _ h => h) signal
    fun w t h => sealed_loose.entry w t _ rfl h) promised_of_sealed)
    fun _ => promised_of_sealed

theorem watch_spawn (sandrun : Bytes) :
    Program.Triple (fun w t => Turned launch k declared k w t ∧ Sealed w t)
      (spawn declared sandrun) (Returned (fun _ => Sealed) fun _ =>
        SpawnDone fun w t => Sealed w t ∧ w.supervisor.cleanups = []) Promised := by
  have hloose : Loose fun w t => Sealed w t ∧ w.supervisor.cleanups = [] :=
    ⟨fun w w' t hsame h => ⟨sealed_loose.world w w' t hsame h.1, hsame.trans h.2⟩,
      fun w t action hplain h => ⟨sealed_loose.entry w t action hplain h.1, h.2⟩⟩
  refine Program.triple_stop (Program.triple_conseq _ (loose_spawn hloose declared sandrun)
    (fun w t h => ⟨h.2, h.1.noCleanup⟩) ?_) fun w t h => promised_of_sealed w t h.1
  intro result w t h
  cases result with
  | error error => exact h.1.1
  | ok index => exact h

theorem sealed_of_starting (w : World) (t : Trace) (h : Starting w t) : Sealed w t := by
  obtain ⟨hsup, -, rfl⟩ := h
  refine fun _ => ⟨⟨fun newer failure before _ _ ht => ?_, fun cleanup hm => ?_⟩, ?_⟩
  · exact absurd ht (by simp)
  · rw [hsup] at hm
    cases hm
  · rintro process ⟨between, lost, older, i, ht, -⟩
    exact absurd ht (by simp)

theorem watch_run (host : Host) (spec : Spec) :
    Program.Triple Starting (run host spec) (fun _ => Promised) Promised :=
  course_run sealed_loose.framed promised_of_sealed host spec watch_drive watch_shutdown
    owed_of_sealed watch_failStartup (fun sandrun _ _ => watch_spawn sandrun)
    (fun _ _ => watch_passGate) sealed_of_starting

/-- Any sequence of calls keeps the protocol, and in every run a job that is lost while it
runs has its cleanup from the failure of the initialization on. -/
theorem cleanup_protocol :
    (∀ (calls : List (Kernel × CleanupCall)) (w : World) (schedule : List Turn),
      w.supervisor.cleanups = [] →
        CleanupProtocol (cleanupCalls calls ⟨w, schedule, []⟩).2.state
          (cleanupCalls calls ⟨w, schedule, []⟩).2.trace) ∧
    ∀ (host : Host) (spec : Spec) (kernel : Kernel) (schedule : List Turn),
      LeadersFound (runTrace host spec kernel schedule) →
        LostCleaned (run host spec (start kernel schedule)).2.state
          (runTrace host spec kernel schedule) := by
  refine ⟨fun calls w schedule hnone => ?_, fun host spec kernel schedule hfound => ?_⟩
  · have hcalm : Calm w [] := by
      rw [Calm, hnone]
      exact
        { distinct := List.nodup_nil
          announced := fun cleanup hm => by cases hm
          orderly := fun _ => trivial
          free := always_nil _
          settled := fun newer entry older group ht => absurd ht (by simp) }
    exact (calm_cleanupCalls calls).reached (r := ⟨w, schedule, []⟩) hcalm
      fun _ => protocol_of_calm
  · exact (watch_run host spec).reached (r := start kernel schedule) ⟨rfl, rfl, rfl⟩
      (fun _ _ _ h => h) hfound

/-- The setup job never ends: the clock passes its deadline, then that of the cleanup. -/
def stuckSchedule : List Turn :=
  (List.range 80).map fun i => match i with
    | 30 => ⟨[.tick (1000 * millisecond)], .choose 0⟩
    | 50 => ⟨[.tick shutdownGrace], .choose 0⟩
    | i => ⟨[], .choose (100 + i)⟩

theorem cleanup_protocol_stuck :
    CleanupProtocol (cleanupCalls [(setupWorld.kernel, .schedule 108), (setupWorld.kernel, .process)]
        ⟨setupWorld, setupSchedule, []⟩).2.state
      (cleanupCalls [(setupWorld.kernel, .schedule 108), (setupWorld.kernel, .process)]
        ⟨setupWorld, setupSchedule, []⟩).2.trace ∧
    LostCleaned (run setupHost setupSpec (start setupKernel stuckSchedule)).2.state
      (runTrace setupHost setupSpec setupKernel stuckSchedule) ∧
    Action.jobFailed 0 ∈ acts (runTrace setupHost setupSpec setupKernel stuckSchedule) ∧
    Action.signalled 108 sigkill ∈ acts (runTrace setupHost setupSpec setupKernel stuckSchedule) :=
  ⟨cleanup_protocol.1 _ setupWorld setupSchedule rfl,
    cleanup_protocol.2 setupHost setupSpec setupKernel stuckSchedule (by decide +kernel),
    by decide +kernel, by decide +kernel⟩

end Sandcamp.Campd
