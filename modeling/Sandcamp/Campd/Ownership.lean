import Sandcamp.Campd.Frames

/-!
# Whose groups shutdown terminates (runtime.rs:571-589)

`residual_group` is set once, when a process is reaped. A cleanup that finds the group gone is
dropped, but the flag stays, and `shutdown` goes by the flag. So the number of a group that campd
has seen vanish is passed to `terminate_groups` unless its leader was reaped with no group left.
-/

namespace Sandcamp.Campd
open Foundations

/-! ### Groups found gone -/

/-- `schedule_cleanup` comes next, and asks for the group. -/
def Action.schedules : Action → Bool
  | .exited _ _ residual => residual
  | .jobFailed _ => true
  | _ => false

def Action.reaps : Action → Bool
  | .exited .. => true
  | _ => false

/-- What an entry adds to `foundGone`, when an exit was recorded after it or not. -/
def Entry.gone (reaped : Bool) (entry : Entry) (older : Trace) : List ℕ :=
  match entry.action with
  | .groupObserved group false =>
    if reaped = true ∨ (acts older).head?.any Action.schedules = true then [] else [group]
  | _ => []

def goneBefore (reaped : Bool) : Trace → List ℕ
  | [] => []
  | entry :: older => entry.gone reaped older ++ goneBefore entry.action.reaps older

/-- The groups that `process_cleanups` has found gone. Before `terminate_groups` there are two
other places that ask `process_group_exists`: `reap_available`, which records the exit next, and
`schedule_cleanup`, which asks right after a process was reaped or a gate has failed. -/
def foundGone (t : Trace) : List ℕ := goneBefore false t

/-- The group was made by a process that campd spawned, and was not found gone since. -/
def Owned (t : Trace) (group : ℕ) : Prop :=
  ∃ newer index w older, t = newer ++ ⟨.started index group, w⟩ :: older ∧
    group ∉ foundGone newer

/-- A process whose group was found gone since its spawn was reaped, and there was no group left
when it was. -/
def LeftNothing (t : Trace) : Prop :=
  ∀ newer index group w older, t = newer ++ ⟨.started index group, w⟩ :: older →
    group ∈ foundGone newer → ∃ status, Action.exited index status false ∈ acts t

/-- At every call of `terminate_groups` all its groups are campd's just when `LeftNothing`. -/
def Targets (t : Trace) : Prop :=
  Always (fun entry older => ∀ groups signal, entry.action = .terminating groups signal →
    ((∀ group ∈ groups, Owned older group) ↔ LeftNothing older)) t

variable {t older : Trace} {group : ℕ} {w : World}

theorem mem_gone {reaped : Bool} {entry : Entry} (h : group ∈ entry.gone reaped older) :
    entry.action = .groupObserved group false ∧ reaped = false ∧
      (acts older).head?.any Action.schedules = false := by
  unfold Entry.gone at h
  split at h
  · rename_i g he
    split at h
    · cases h
    · rename_i hnot
      rw [List.mem_singleton] at h
      simp only [not_or, Bool.not_eq_true] at hnot
      exact ⟨h ▸ he, hnot⟩
  · cases h

theorem goneBefore_subset (reaped : Bool) (h : group ∈ goneBefore reaped t) :
    group ∈ foundGone t := by
  cases reaped with
  | false => exact h
  | true =>
    cases t with
    | nil => cases h
    | cons entry older =>
      rw [goneBefore, List.mem_append] at h
      refine List.mem_append_right _ (h.resolve_left fun hgone => ?_)
      cases (mem_gone hgone).2.1

theorem mem_foundGone_cons {entry : Entry} (h : group ∈ foundGone (entry :: t)) :
    (entry.action = .groupObserved group false ∧ (acts t).head?.any Action.schedules = false) ∨
      group ∈ foundGone t := by
  rw [foundGone, goneBefore, List.mem_append] at h
  rcases h with h | h
  · exact Or.inl ⟨(mem_gone h).1, (mem_gone h).2.2⟩
  · exact Or.inr (goneBefore_subset _ h)

theorem foundGone_cons {entry : Entry} (hother : ∀ group, entry.action ≠ .groupObserved group false)
    (h : group ∈ foundGone (entry :: t)) : group ∈ foundGone t :=
  (mem_foundGone_cons h).resolve_left fun hgone => hother group hgone.1

/-- The question of `schedule_cleanup` does not count, nor does that of `reap_available`. -/
theorem foundGone_asked {entry : Entry} (hhead : (acts t).head?.any Action.schedules = true)
    (h : group ∈ foundGone (entry :: t)) : group ∈ foundGone t := by
  refine (mem_foundGone_cons h).resolve_left fun hgone => ?_
  rw [hhead] at hgone
  cases hgone.2

theorem foundGone_exited {index status number : ℕ} {residual alive : Bool} {w w' : World}
    (h : group ∈ foundGone (⟨.exited index status residual, w⟩ ::
      ⟨.groupObserved number alive, w'⟩ :: t)) : group ∈ foundGone t := by
  rw [foundGone, goneBefore, goneBefore, List.mem_append, List.mem_append] at h
  rcases h with h | h | h
  · cases h
  · cases (mem_gone h).2.1
  · exact goneBefore_subset _ h

theorem foundGone_append_started (newer older : Trace) (index : ℕ) (w : World) :
    foundGone (newer ++ ⟨.started index group, w⟩ :: older) =
      foundGone newer ++ foundGone older := by
  have hfrom : ∀ reaped, goneBefore reaped (newer ++ ⟨.started index group, w⟩ :: older) =
      goneBefore reaped newer ++ foundGone older := by
    induction newer with
    | nil => exact fun reaped => rfl
    | cons entry newer ih =>
      intro reaped
      have hhead : (acts (newer ++ ⟨.started index group, w⟩ :: older)).head?.any
          Action.schedules = (acts newer).head?.any Action.schedules := by
        cases newer <;> rfl
      simp only [List.cons_append, goneBefore, Entry.gone, hhead, ih, List.append_assoc]
  exact hfrom false

/-! ### The books -/

/-- A process of this group number was reaped, and its group was there when it was. -/
def LeftGroup (standings : List Standing) (group : ℕ) : Prop :=
  ∃ s ∈ standings, s.pid = group ∧ s.alive = false ∧ s.residual = true

def GateFailed (t : Trace) : Prop := ∃ index, Action.jobFailed index ∈ acts t

/-- Why a group may have a cleanup. -/
def Entitled (standings : List Standing) (group : ℕ) (t : Trace) : Prop :=
  LeftGroup standings group ∨
    GateFailed t ∧ group ∉ foundGone t ∧ ∃ s ∈ standings, s.pid = group

/-- What the trace says about processes and groups, given what the supervisor has of them. -/
structure Ledger (standings : List Standing) (pending : List ℕ) (t : Trace) : Prop where
  targets : Targets t
  /-- Nothing is spawned once a group was found gone. -/
  settled : ∀ newer index group w older, t = newer ++ ⟨.started index group, w⟩ :: older →
    foundGone older = []
  listed : ∀ index group, Action.started index group ∈ acts t ↔
    ∃ s, standings[index]? = some s ∧ s.pid = group
  reaped : ∀ index residual, (∃ status, Action.exited index status residual ∈ acts t) ↔
    ∃ s, standings[index]? = some s ∧ s.alive = false ∧ s.residual = residual
  distinct : pending.Nodup
  entitled : ∀ group ∈ pending, Entitled standings group t
  cause : ∀ group ∈ foundGone t, LeftGroup standings group ∨ GateFailed t

variable {standings : List Standing} {pending left : List ℕ}

theorem foundGone_split {newer : Trace} {index : ℕ} (h : Ledger standings pending t)
    (ht : t = newer ++ ⟨.started index group, w⟩ :: older) : foundGone t = foundGone newer := by
  rw [ht, foundGone_append_started, h.settled newer index group w older ht, List.append_nil]

theorem owned_iff (h : Ledger standings pending t) :
    Owned t group ↔ (∃ s ∈ standings, s.pid = group) ∧ group ∉ foundGone t := by
  constructor
  · rintro ⟨newer, index, w, older, ht, hnot⟩
    have hm : Action.started index group ∈ acts t := by
      rw [ht]
      simp [acts]
    obtain ⟨s, hs, hpid⟩ := (h.listed index group).mp hm
    rw [foundGone_split h ht]
    exact ⟨⟨s, List.mem_of_getElem? hs, hpid⟩, hnot⟩
  · rintro ⟨⟨s, hs, hpid⟩, hnot⟩
    obtain ⟨index, hindex⟩ := List.getElem?_of_mem hs
    obtain ⟨⟨action, w⟩, hm, rfl⟩ :=
      List.mem_map.mp ((h.listed index group).mpr ⟨s, hindex, hpid⟩)
    obtain ⟨newer, older, ht⟩ := List.append_of_mem hm
    exact ⟨newer, index, w, older, ht, foundGone_split h ht ▸ hnot⟩

theorem leftNothing_iff (h : Ledger standings pending t) :
    LeftNothing t ↔ ∀ s ∈ standings, s.pid ∈ foundGone t → s.alive = false ∧ s.residual = false := by
  constructor
  · intro hleft s hs hgone
    obtain ⟨index, hindex⟩ := List.getElem?_of_mem hs
    obtain ⟨⟨action, w⟩, hm, rfl⟩ :=
      List.mem_map.mp ((h.listed index s.pid).mpr ⟨s, hindex, rfl⟩)
    obtain ⟨newer, older, ht⟩ := List.append_of_mem hm
    obtain ⟨other, ho, hdead, hresidual⟩ := (h.reaped index false).mp
      (hleft newer index s.pid w older ht (foundGone_split h ht ▸ hgone))
    rw [hindex] at ho
    cases ho
    exact ⟨hdead, hresidual⟩
  · intro hall newer index group w older ht hgone
    have hm : Action.started index group ∈ acts t := by
      rw [ht]
      simp [acts]
    obtain ⟨s, hs, rfl⟩ := (h.listed index group).mp hm
    rw [← foundGone_split h ht] at hgone
    exact (h.reaped index false).mpr ⟨s, hs, hall s (List.mem_of_getElem? hs) hgone⟩

def Supervisor.cleanupGroups (sup : Supervisor) : List ℕ := sup.cleanups.map (·.group)

/-- What `shutdown` collects. -/
theorem mem_shutdownGroups (sup : Supervisor) : group ∈ sup.shutdownGroups ↔
    (∃ s ∈ sup.standings, s.pid = group ∧ (s.alive = true ∨ s.residual = true)) ∨
      group ∈ sup.cleanupGroups := by
  simp only [Supervisor.shutdownGroups, Supervisor.cleanupGroups, List.mem_dedup, List.mem_append,
    Supervisor.standings, List.mem_map, List.mem_filter, Bool.or_eq_true]
  refine or_congr_left ⟨?_, ?_⟩
  · rintro ⟨process, ⟨hm, hmarked⟩, rfl⟩
    exact ⟨_, ⟨process, hm, rfl⟩, rfl, hmarked⟩
  · rintro ⟨_, ⟨process, hm, rfl⟩, rfl, hmarked⟩
    exact ⟨process, ⟨hm, hmarked⟩, rfl⟩

theorem owned_shutdownGroups {sup : Supervisor}
    (h : Ledger sup.standings sup.cleanupGroups t) :
    (∀ group ∈ sup.shutdownGroups, Owned t group) ↔ LeftNothing t := by
  simp only [mem_shutdownGroups, owned_iff h, leftNothing_iff h]
  constructor
  · intro hall s hs hgone
    by_contra hmarked
    refine (hall s.pid (Or.inl ⟨s, hs, rfl, ?_⟩)).2 hgone
    simpa [Classical.or_iff_not_imp_left] using hmarked
  · intro hall group hgroup
    -- the group of a process that is alive or left a group behind was not found gone
    have hkept : ∀ s ∈ sup.standings, s.alive = true ∨ s.residual = true →
        s.pid ∉ foundGone t := by
      intro s hs hmarked hgone
      simp [hall s hs hgone] at hmarked
    rcases hgroup with ⟨s, hs, rfl, hmarked⟩ | hpending
    · exact ⟨⟨s, hs, rfl⟩, hkept s hs hmarked⟩
    · rcases h.entitled group hpending with ⟨s, hs, rfl, -, hresidual⟩ | ⟨-, hnot, hs⟩
      · exact ⟨⟨s, hs, rfl⟩, hkept s hs (Or.inr hresidual)⟩
      · exact ⟨hs, hnot⟩

/-! ### Entries -/

/-- A spawn, an exit or a call of `terminate_groups`. -/
def Action.booked : Action → Bool
  | .started .. | .exited .. | .terminating .. => true
  | _ => false

theorem GateFailed.cons (entry : Entry) (h : GateFailed t) : GateFailed (entry :: t) := by
  obtain ⟨index, hm⟩ := h
  exact ⟨index, mem_acts_of_mem [entry] hm⟩

/-- An entry of no consequence, or the answer that ends a cleanup. -/
theorem ledger_cons (entry : Entry) (hplain : entry.action.booked = false)
    (hleft : left.Sublist pending) (hgone : ∀ group ∈ foundGone (entry :: t),
      group ∈ foundGone t ∨ group ∈ pending ∧ group ∉ left)
    (h : Ledger standings pending t) : Ledger standings left (entry :: t) := by
  have hne : ∀ action : Action, action.booked = true → action ≠ entry.action := by
    rintro action hbooked rfl
    rw [hbooked] at hplain
    cases hplain
  refine
    { targets := (always_cons _ _ _).mpr
        ⟨fun groups signal he => absurd he.symm (hne _ rfl), h.targets⟩
      settled := fun newer index group w older ht => ?_
      listed := fun index group => ?_
      reaped := fun index residual => ?_
      distinct := h.distinct.sublist hleft
      entitled := fun group hm => ?_
      cause := fun group hm => ?_ }
  · cases newer with
    | nil =>
      obtain ⟨rfl, -⟩ := List.cons.inj ht
      cases hplain
    | cons first newer => exact h.settled newer index group w older (List.cons.inj ht).2
  · simp only [mem_acts_cons, hne (.started index group) rfl, false_or, h.listed]
  · simp only [mem_acts_cons, hne (.exited index _ residual) rfl, false_or, h.reaped]
  · rcases h.entitled group (hleft.subset hm) with hresidual | ⟨hfailed, hnot, hs⟩
    · exact Or.inl hresidual
    · refine Or.inr ⟨hfailed.cons entry, fun hfound => ?_, hs⟩
      exact (hgone group hfound).elim hnot fun hdropped => hdropped.2 hm
  · rcases hgone group hm with hfound | ⟨hpending, -⟩
    · exact (h.cause group hfound).imp_right (GateFailed.cons entry)
    · exact (h.entitled group hpending).imp_right fun hfailed => hfailed.1.cons entry

theorem ledger_entry (action : Action) (hplain : action.booked = false)
    (hother : ∀ group, action ≠ .groupObserved group false) (h : Ledger standings pending t) :
    Ledger standings pending (⟨action, w⟩ :: t) :=
  ledger_cons _ hplain (List.Sublist.refl _) (fun _ hm => Or.inl (foundGone_cons hother hm)) h

theorem ledger_asked (alive : Bool) (hhead : (acts t).head?.any Action.schedules = true)
    (h : Ledger standings pending t) :
    Ledger standings pending (⟨.groupObserved group alive, w⟩ :: t) :=
  ledger_cons _ rfl (List.Sublist.refl _) (fun _ hm => Or.inl (foundGone_asked hhead hm)) h

theorem ledger_gone {before after : List ℕ} (h : Ledger standings (before ++ group :: after) t) :
    Ledger standings (before ++ after) (⟨.groupObserved group false, w⟩ :: t) := by
  have hnot : group ∉ before ++ after := by
    have hdistinct := h.distinct
    rw [List.nodup_middle, List.nodup_cons] at hdistinct
    exact hdistinct.1
  refine ledger_cons _ rfl (List.Sublist.append (List.Sublist.refl _)
    (List.sublist_cons_self _ _)) (fun g hm => ?_) h
  refine (mem_foundGone_cons hm).symm.imp_right fun hgone => ?_
  obtain rfl : group = g := (Action.groupObserved.inj hgone.1).1
  exact ⟨List.mem_append_right _ List.mem_cons_self, hnot⟩

theorem ledger_drop {before after : List ℕ} (h : Ledger standings (before ++ group :: after) t) :
    Ledger standings (before ++ after) (⟨.cleanupAbandoned group, w⟩ :: t) :=
  ledger_cons _ rfl (List.Sublist.append (List.Sublist.refl _) (List.sublist_cons_self _ _))
    (fun _ hm => Or.inl (foundGone_cons (by simp) hm)) h

theorem ledger_scheduled (hfree : group ∉ pending) (hentitled : Entitled standings group t)
    (h : Ledger standings pending t) : Ledger standings (pending ++ [group]) t :=
  { h with
    distinct := List.nodup_append.mpr ⟨h.distinct, List.nodup_singleton _, fun g hg g' hg' => by
      rw [List.mem_singleton.mp hg']
      rintro rfl
      exact hfree hg⟩
    entitled := fun g hg => by
      rcases List.mem_append.mp hg with hg | hg
      · exact h.entitled g hg
      · rw [List.mem_singleton.mp hg]
        exact hentitled }

/-! ### Spawns and exits -/

/-- A process is registered while nothing was found gone. -/
theorem ledger_started (hnone : foundGone t = []) (h : Ledger standings pending t) :
    Ledger (standings ++ [⟨group, true, false⟩]) pending
      (⟨.started standings.length group, w⟩ :: t) := by
  have hgone : foundGone (⟨.started standings.length group, w⟩ :: t) = [] := hnone
  have hmore : ∀ s ∈ standings, s ∈ standings ++ [⟨group, true, false⟩] := fun s hs =>
    List.mem_append_left _ hs
  refine
    { targets := (always_cons _ _ _).mpr ⟨fun _ _ he => (by cases he), h.targets⟩
      settled := fun newer index g w' older ht => ?_
      listed := fun index g => ?_
      reaped := fun index residual => ?_
      distinct := h.distinct
      entitled := fun g hm => ?_
      cause := fun g hm => by rw [hgone] at hm; cases hm }
  · cases newer with
    | nil =>
      rw [← (List.cons.inj ht).2]
      exact hnone
    | cons first newer => exact h.settled newer index g w' older (List.cons.inj ht).2
  · simp only [mem_acts_cons, Action.started.injEq, h.listed, getElem?_snoc]
    constructor
    · rintro (⟨rfl, rfl⟩ | ⟨s, hs, hpid⟩)
      · exact ⟨_, Or.inr ⟨rfl, rfl⟩, rfl⟩
      · exact ⟨s, Or.inl hs, hpid⟩
    · rintro ⟨s, hs | ⟨rfl, rfl⟩, rfl⟩
      · exact Or.inr ⟨s, hs, rfl⟩
      · exact Or.inl ⟨rfl, rfl⟩
  · have hexits : ∀ status, Action.exited index status residual ∈
        acts (⟨.started standings.length group, w⟩ :: t) ↔
          Action.exited index status residual ∈ acts t := fun status => by simp [mem_acts_cons]
    simp only [hexits, h.reaped, getElem?_snoc]
    constructor
    · rintro ⟨s, hs, hrest⟩
      exact ⟨s, Or.inl hs, hrest⟩
    · rintro ⟨s, hs | ⟨-, rfl⟩, hrest⟩
      · exact ⟨s, hs, hrest⟩
      · cases hrest.1
  · rcases h.entitled g hm with ⟨s, hs, hrest⟩ | ⟨hfailed, hnot, s, hs, hpid⟩
    · exact Or.inl ⟨s, hmore s hs, hrest⟩
    · exact Or.inr ⟨hfailed.cons _, by simp [hgone], s, hmore s hs, hpid⟩

section Exits
variable {index : ℕ} {s : Standing} {residual : Bool} (hs : standings[index]? = some s)
  (halive : s.alive = true)

/-- The standings once process `index` was reaped. -/
def exitedStandings (standings : List Standing) (index : ℕ) (s : Standing) (residual : Bool) :
    List Standing :=
  standings.set index ⟨s.pid, false, residual⟩

include hs

theorem exitedStandings_iff (i : ℕ) (x : Standing) :
    (exitedStandings standings index s residual)[i]? = some x ↔
      (index = i ∧ x = ⟨s.pid, false, residual⟩) ∨ (index ≠ i ∧ standings[i]? = some x) := by
  refine ⟨getElem?_set_cases, ?_⟩
  rintro (⟨rfl, rfl⟩ | ⟨hne, hx⟩)
  · exact List.getElem?_set_self (List.getElem?_eq_some_iff.mp hs).1
  · rwa [exitedStandings, List.getElem?_set_ne hne]

theorem exitedStandings_pid (i group : ℕ) :
    (∃ x, (exitedStandings standings index s residual)[i]? = some x ∧ x.pid = group) ↔
      ∃ x, standings[i]? = some x ∧ x.pid = group := by
  simp only [exitedStandings_iff hs]
  constructor
  · rintro ⟨x, ⟨rfl, rfl⟩ | ⟨-, hx⟩, hpid⟩
    · exact ⟨s, hs, hpid⟩
    · exact ⟨x, hx, hpid⟩
  · rintro ⟨x, hx, hpid⟩
    by_cases hi : index = i
    · subst hi
      obtain rfl := Option.some.inj (hs.symm.trans hx)
      exact ⟨_, Or.inl ⟨rfl, rfl⟩, hpid⟩
    · exact ⟨x, Or.inr ⟨hi, hx⟩, hpid⟩

include halive

theorem exitedStandings_dead (i : ℕ) (r : Bool) :
    (∃ x, (exitedStandings standings index s residual)[i]? = some x ∧ x.alive = false ∧
      x.residual = r) ↔ (i = index ∧ r = residual) ∨
        ∃ x, standings[i]? = some x ∧ x.alive = false ∧ x.residual = r := by
  simp only [exitedStandings_iff hs]
  constructor
  · rintro ⟨x, ⟨rfl, rfl⟩ | ⟨-, hx⟩, hdead, hresidual⟩
    · exact Or.inl ⟨rfl, hresidual.symm⟩
    · exact Or.inr ⟨x, hx, hdead, hresidual⟩
  · rintro (⟨rfl, rfl⟩ | ⟨x, hx, hdead, hresidual⟩)
    · exact ⟨_, Or.inl ⟨rfl, rfl⟩, rfl, rfl⟩
    · refine ⟨x, Or.inr ⟨?_, hx⟩, hdead, hresidual⟩
      rintro rfl
      obtain rfl := Option.some.inj (hs.symm.trans hx)
      rw [halive] at hdead
      cases hdead

theorem exitedStandings_left {group : ℕ} (h : LeftGroup standings group) :
    LeftGroup (exitedStandings standings index s residual) group := by
  obtain ⟨x, hx, hpid, hdead, hresidual⟩ := h
  obtain ⟨i, hi⟩ := List.getElem?_of_mem hx
  refine ⟨x, List.mem_of_getElem? ((exitedStandings_iff hs i x).mpr (Or.inr ⟨?_, hi⟩)), hpid,
    hdead, hresidual⟩
  rintro rfl
  obtain rfl := Option.some.inj (hs.symm.trans hi)
  rw [halive] at hdead
  cases hdead

/-- A process is reaped, after its group was asked for. -/
theorem ledger_exited {status : ℕ} {w' : World} (h : Ledger standings pending t) :
    Ledger (exitedStandings standings index s residual) pending
      (⟨.exited index status residual, w⟩ :: ⟨.groupObserved s.pid residual, w'⟩ :: t) where
  targets := (always_cons _ _ _).mpr ⟨fun _ _ he => (by cases he),
    (always_cons _ _ _).mpr ⟨fun _ _ he => (by cases he), h.targets⟩⟩
  settled := fun newer i group w'' older ht => by
    rcases newer with _ | ⟨_, _ | ⟨_, newer⟩⟩
    · cases (List.cons.inj ht).1
    · cases (List.cons.inj (List.cons.inj ht).2).1
    · exact h.settled newer i group w'' older (List.cons.inj (List.cons.inj ht).2).2
  listed := fun i group => by
    simp only [exitedStandings_pid hs, ← h.listed, mem_acts_cons, reduceCtorEq, false_or]
  reaped := fun i r => by
    simp only [exitedStandings_dead hs halive, ← h.reaped, mem_acts_cons, reduceCtorEq, false_or,
      exists_or, Action.exited.injEq]
    simp
  distinct := h.distinct
  entitled := fun group hm => by
    rcases h.entitled group hm with hleft | ⟨hfailed, hnot, x, hx, hpid⟩
    · exact Or.inl (exitedStandings_left hs halive hleft)
    · obtain ⟨i, hi⟩ := List.getElem?_of_mem hx
      obtain ⟨y, hy, hypid⟩ := (exitedStandings_pid hs i group).mpr ⟨x, hi, hpid⟩
      exact Or.inr ⟨(hfailed.cons _).cons _, fun hfound => hnot (foundGone_exited hfound), y,
        List.mem_of_getElem? hy, hypid⟩
  cause := fun group hm => (h.cause group (foundGone_exited hm)).imp
    (exitedStandings_left hs halive) fun hfailed => (hfailed.cons _).cons _

end Exits

end Sandcamp.Campd
