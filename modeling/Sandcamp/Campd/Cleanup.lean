import Mathlib.Data.List.Nodup
import Sandcamp.Campd.Steps

/-!
# The cleanup of leftover groups (runtime.rs:526-561)

The protocol of `schedule_cleanup` and `process_cleanups`: any sequence of calls, on a kernel
that is another one at every call.
-/

namespace Sandcamp.Campd
open Foundations

/-! ### The signals to a group -/

def Entry.signalTo (group : ℕ) (entry : Entry) : Option (ℕ × ℕ) :=
  match entry.action with
  | .signalled g signal => if g = group then some (signal, entry.world.kernel.clock) else none
  | _ => none

/-- The signals sent to a group, newest first, with the time they were sent at. -/
def signals (group : ℕ) (t : Trace) : List (ℕ × ℕ) := t.filterMap (Entry.signalTo group)

/-- Every signal is a `SIGTERM`, or a `SIGKILL` that is the next signal after a `SIGTERM` and
comes at least the grace period later. -/
def Orderly : List (ℕ × ℕ) → Prop
  | [] => True
  | (signal, clock) :: older => Orderly older ∧ (signal = sigterm ∨ signal = sigkill ∧
      ∃ sent rest, older = (sigterm, sent) :: rest ∧ sent + shutdownGrace ≤ clock)

variable {group : ℕ} {w : World} {t : Trace}

theorem signals_append (group : ℕ) (new t : Trace) :
    signals group (new ++ t) = signals group new ++ signals group t :=
  List.filterMap_append

theorem signals_cons_signalled (group signal : ℕ) (w : World) (t : Trace) :
    signals group (⟨.signalled group signal, w⟩ :: t) =
      (signal, w.kernel.clock) :: signals group t := by
  simp [signals, Entry.signalTo]

theorem signals_cons_other (group : ℕ) (entry : Entry) (t : Trace)
    (h : ∀ signal, entry.action ≠ .signalled group signal) :
    signals group (entry :: t) = signals group t := by
  have hnone : entry.signalTo group = none := by
    unfold Entry.signalTo
    split
    · rename_i g signal he
      have hne : g ≠ group := fun hg => h signal (hg ▸ he)
      rw [if_neg hne]
    · rfl
  simp only [signals, List.filterMap_cons, hnone]

/-- When the last signal was a `SIGKILL`, it came after every `SIGTERM`. -/
theorem killed_since {newer older : Trace} {entry : Entry} {clock : ℕ} {rest : List (ℕ × ℕ)}
    (ht : t = newer ++ entry :: older) (he : entry.action = .signalled group sigterm)
    (hlast : signals group t = (sigkill, clock) :: rest) :
    Action.signalled group sigkill ∈ acts newer := by
  obtain ⟨action, world⟩ := entry
  obtain rfl : action = .signalled group sigterm := he
  rw [ht, signals_append, signals_cons_signalled] at hlast
  cases hnew : signals group newer with
  | nil =>
    rw [hnew, List.nil_append] at hlast
    have hsame : sigterm = sigkill := congrArg Prod.fst (List.cons.inj hlast).1
    exact absurd hsame (by decide)
  | cons first later =>
    rw [hnew, List.cons_append] at hlast
    have hfirst : first ∈ signals group newer := hnew ▸ List.mem_cons_self
    obtain ⟨e, hm, hs⟩ := List.mem_filterMap.mp hfirst
    rw [(List.cons.inj hlast).1] at hs
    refine List.mem_map.mpr ⟨e, hm, ?_⟩
    unfold Entry.signalTo at hs
    split at hs
    · rename_i g signal ha
      split at hs
      · rename_i hg
        cases hs
        rw [ha, hg]
      · cases hs
    · cases hs

/-! ### The protocol -/

/-- What the signals to the group of an entry say about the entry. -/
def Announced (cleanup : PendingCleanup) (t : Trace) : Prop :=
  ∃ sent rest, sent + shutdownGrace ≤ cleanup.killAt ∧
    cleanup.killAt ≤ cleanup.giveUpAt ∧
    (cleanup.killed = false ∧ signals cleanup.group t = (sigterm, sent) :: rest ∨
      cleanup.killed = true ∧
        ∃ clock, signals cleanup.group t = (sigkill, clock) :: (sigterm, sent) :: rest)

/-- The last `SIGTERM` to the group has been followed by at most one signal, a `SIGKILL`. -/
def OnceTermed (group : ℕ) (t : Trace) : Prop :=
  ∃ sent rest, signals group t = (sigterm, sent) :: rest ∨
    ∃ clock, signals group t = (sigkill, clock) :: (sigterm, sent) :: rest

/-- What is due to every group that was sent a `SIGTERM`, given the list of entries. -/
def Settled (cleanups : List PendingCleanup) (t : Trace) : Prop :=
  ∀ newer entry older group, t = newer ++ entry :: older →
    entry.action = .signalled group sigterm → (∃ cleanup ∈ cleanups, cleanup.group = group) ∨
      Action.groupObserved group false ∈ acts newer ∨ Action.signalled group sigkill ∈ acts newer

/-- The list of entries and the trace agree. -/
structure Working (cleanups : List PendingCleanup) (t : Trace) : Prop where
  distinct : (cleanups.map (·.group)).Nodup
  announced : ∀ cleanup ∈ cleanups, Announced cleanup t
  orderly : ∀ group, Orderly (signals group t)
  free : Always (fun entry _ => ∀ group, entry.action = .signalled group sigterm →
    ¬entry.world.supervisor.Pending group) t
  settled : Settled cleanups t

/-- What holds wherever a sequence of calls has come to: no group has two entries; the group
of an entry was sent one `SIGTERM`, and at most one `SIGKILL` after it, at least the grace
period later; a `SIGTERM` goes to a group without an entry; and from then on the group has an
entry until it was observed gone or was sent the `SIGKILL`. Right after the `SIGTERM` the entry
is still to be made. -/
structure CleanupProtocol (w : World) (t : Trace) : Prop where
  distinct : (w.supervisor.cleanups.map (·.group)).Nodup
  termed : ∀ cleanup ∈ w.supervisor.cleanups, OnceTermed cleanup.group t
  orderly : ∀ group, Orderly (signals group t)
  free : Always (fun entry _ => ∀ group, entry.action = .signalled group sigterm →
    ¬entry.world.supervisor.Pending group) t
  settled : ∀ newer entry older group, t = newer ++ entry :: older →
    entry.action = .signalled group sigterm → newer = [] ∨ w.supervisor.Pending group ∨
      Action.groupObserved group false ∈ acts newer ∨ Action.signalled group sigkill ∈ acts newer

variable {cleanups kept rest : List PendingCleanup} {cleanup : PendingCleanup}

theorem onceTermed_of_announced (h : Announced cleanup t) : OnceTermed cleanup.group t := by
  obtain ⟨sent, rest, -, -, ⟨-, hlast⟩ | ⟨-, clock, hlast⟩⟩ := h
  · exact ⟨sent, rest, Or.inl hlast⟩
  · exact ⟨sent, rest, Or.inr ⟨clock, hlast⟩⟩

theorem protocol_of_working (hsame : w.supervisor.cleanups = cleanups) (h : Working cleanups t) :
    CleanupProtocol w t where
  distinct := hsame ▸ h.distinct
  termed := fun cleanup hm => onceTermed_of_announced (h.announced cleanup (hsame ▸ hm))
  orderly := h.orderly
  free := h.free
  settled := fun newer entry older group ht he => by
    subst hsame
    exact Or.inr (h.settled newer entry older group ht he)

/-! ### Entries -/

/-- An entry that is no signal to the group leaves what is said about it. -/
theorem announced_cons (entry : Entry)
    (hother : ∀ signal, entry.action ≠ .signalled cleanup.group signal)
    (h : Announced cleanup t) : Announced cleanup (entry :: t) := by
  unfold Announced
  rw [signals_cons_other cleanup.group entry t hother]
  exact h

theorem onceTermed_cons (entry : Entry) (hother : ∀ signal, entry.action ≠ .signalled group signal)
    (h : OnceTermed group t) : OnceTermed group (entry :: t) := by
  unfold OnceTermed
  rw [signals_cons_other group entry t hother]
  exact h

theorem orderly_cons_other (entry : Entry) (hother : ∀ g signal, entry.action ≠ .signalled g signal)
    (h : ∀ group, Orderly (signals group t)) (group : ℕ) :
    Orderly (signals group (entry :: t)) := by
  rw [signals_cons_other group entry t (hother group)]
  exact h group

/-- What becomes of the groups when an entry is added and the list changes. -/
theorem settled_cons {left : List PendingCleanup} (entry : Entry)
    (hterm : ∀ group, entry.action ≠ .signalled group sigterm) (h : Settled cleanups t)
    (hleft : ∀ c ∈ cleanups, (∃ l ∈ left, l.group = c.group) ∨
      ∀ newer e older, entry :: t = (entry :: newer) ++ e :: older →
        e.action = .signalled c.group sigterm →
        Action.groupObserved c.group false ∈ acts (entry :: newer) ∨
          Action.signalled c.group sigkill ∈ acts (entry :: newer)) :
    Settled left (entry :: t) := by
  intro newer e older group ht he
  cases newer with
  | nil =>
    obtain ⟨rfl, -⟩ := List.cons.inj ht
    exact absurd he (hterm group)
  | cons first newer =>
    obtain ⟨rfl, hrest⟩ := List.cons.inj ht
    rcases h newer e older group hrest he with ⟨c, hc, rfl⟩ | hgone | hkilled
    · rcases hleft c hc with ⟨l, hl, hgroup⟩ | hdone
      · exact Or.inl ⟨l, hl, hgroup⟩
      · exact Or.inr (hdone newer e older ht he)
    · exact Or.inr (Or.inl (mem_acts_of_mem [_] hgone))
    · exact Or.inr (Or.inr (mem_acts_of_mem [_] hkilled))

theorem working_cons (entry : Entry) (hother : ∀ g signal, entry.action ≠ .signalled g signal)
    (h : Working cleanups t) : Working cleanups (entry :: t) where
  distinct := h.distinct
  announced := fun c hc => announced_cons entry (hother c.group) (h.announced c hc)
  orderly := orderly_cons_other entry hother h.orderly
  free := (always_cons _ _ _).mpr ⟨fun group he => absurd he (hother group _), h.free⟩
  settled := settled_cons entry (fun group => hother group _) h.settled fun c hc =>
    Or.inl ⟨c, hc, rfl⟩

theorem working_drop (entry : Entry) (hother : ∀ g signal, entry.action ≠ .signalled g signal)
    (hsplit : cleanups = kept ++ cleanup :: rest) (h : Working cleanups t)
    (hdone : ∀ newer e older, t = newer ++ e :: older →
      e.action = .signalled cleanup.group sigterm →
        Action.groupObserved cleanup.group false ∈ acts (entry :: newer) ∨
          Action.signalled cleanup.group sigkill ∈ acts (entry :: newer)) :
    Working (kept ++ rest) (entry :: t) := by
  have hsub : (kept ++ rest).Sublist cleanups := by
    rw [hsplit]
    exact List.Sublist.append (List.Sublist.refl kept) (List.sublist_cons_self cleanup rest)
  have hentry := working_cons entry hother h
  refine
    { hentry with
      distinct := h.distinct.sublist (hsub.map _)
      announced := fun c hc => hentry.announced c (hsub.subset hc)
      settled := settled_cons entry (fun group => hother group _) h.settled fun c hc => ?_ }
  rw [hsplit] at hc
  rcases List.mem_append.mp hc with hc | hc
  · exact Or.inl ⟨c, List.mem_append_left _ hc, rfl⟩
  rcases List.mem_cons.mp hc with rfl | hc
  · exact Or.inr fun newer e older ht he => hdone newer e older (List.cons.inj ht).2 he
  · exact Or.inl ⟨c, List.mem_append_right _ hc, rfl⟩

theorem working_gone (hsplit : cleanups = kept ++ cleanup :: rest) (h : Working cleanups t)
    (w : World) : Working (kept ++ rest) (⟨.groupObserved cleanup.group false, w⟩ :: t) :=
  working_drop _ (by simp) hsplit h fun _ _ _ _ _ => Or.inl ((mem_acts_cons _ _ _).mpr (Or.inl rfl))

theorem working_abandoned (hsplit : cleanups = kept ++ cleanup :: rest)
    (hkilled : cleanup.killed = true) (h : Working cleanups t) (w : World) :
    Working (kept ++ rest) (⟨.cleanupAbandoned cleanup.group, w⟩ :: t) := by
  refine working_drop _ (by simp) hsplit h fun newer e older ht he => Or.inr ?_
  have hm : cleanup ∈ cleanups := hsplit ▸ List.mem_append_right kept List.mem_cons_self
  obtain ⟨sent, later, -, -, ⟨hnot, -⟩ | ⟨-, clock, hlast⟩⟩ := h.announced cleanup hm
  · rw [hkilled] at hnot
    cases hnot
  · exact mem_acts_of_mem [_] (killed_since ht he hlast)

theorem working_killed (hsplit : cleanups = kept ++ cleanup :: rest)
    (hfresh : cleanup.killed = false) (hdue : cleanup.killAt ≤ w.kernel.clock)
    (h : Working cleanups t) :
    Working (kept ++ { cleanup with killed := true } :: rest)
      (⟨.signalled cleanup.group sigkill, w⟩ :: t) := by
  have hm : cleanup ∈ cleanups := hsplit ▸ List.mem_append_right kept List.mem_cons_self
  have hgroups : (kept ++ { cleanup with killed := true } :: rest).map (·.group) =
      cleanups.map (·.group) := by
    rw [hsplit]
    simp
  obtain ⟨sent, later, hsent, hordered, ⟨-, hlast⟩ | ⟨hkilled, -⟩⟩ := h.announced cleanup hm
  · refine
      { distinct := hgroups ▸ h.distinct
        announced := fun c hc => ?_
        orderly := fun g => ?_
        free := (always_cons _ _ _).mpr ⟨fun g he => ?_, h.free⟩
        settled := settled_cons _ (by simp [sigkill, sigterm]) h.settled fun c hc => ?_ }
    · -- the other entries are about other groups
      have hother : ∀ c ∈ kept ++ rest, c.group ≠ cleanup.group := by
        have hdistinct := h.distinct
        rw [hsplit, List.map_append, List.map_cons, List.nodup_middle, List.nodup_cons] at hdistinct
        intro c hc he
        refine hdistinct.1 ?_
        rw [← List.map_append, ← he]
        exact List.mem_map_of_mem hc
      have hcases : c = { cleanup with killed := true } ∨ c ∈ kept ++ rest := by
        rcases List.mem_append.mp hc with hc | hc
        · exact Or.inr (List.mem_append_left _ hc)
        · exact (List.mem_cons.mp hc).imp_right (List.mem_append_right _)
      rcases hcases with rfl | hc
      · refine ⟨sent, later, hsent, hordered, Or.inr ⟨rfl, w.kernel.clock, ?_⟩⟩
        rw [signals_cons_signalled, hlast]
      · have hold : c ∈ cleanups := by
          rw [hsplit]
          rcases List.mem_append.mp hc with hc | hc
          · exact List.mem_append_left _ hc
          · exact List.mem_append_right _ (List.mem_cons_of_mem _ hc)
        refine announced_cons _ (fun signal he => hother c hc ?_) (h.announced c hold)
        exact (Action.signalled.inj he).1.symm
    · by_cases hg : cleanup.group = g
      · subst hg
        rw [signals_cons_signalled]
        exact ⟨h.orderly _, Or.inr ⟨rfl, sent, later, hlast, by omega⟩⟩
      · rw [signals_cons_other g _ t fun signal he => hg (Action.signalled.inj he).1]
        exact h.orderly g
    · exact absurd (Action.signalled.inj he).2 (by decide)
    · refine Or.inl ?_
      have hin : c.group ∈ cleanups.map (·.group) := List.mem_map_of_mem hc
      rw [← hgroups] at hin
      obtain ⟨l, hl, hgroup⟩ := List.mem_map.mp hin
      exact ⟨l, hl, hgroup⟩
  · rw [hfresh] at hkilled
    cases hkilled

/-! ### `schedule_cleanup` -/

/-- The group has been sent `SIGTERM`; its entry is still to be made. -/
structure Announcing (group : ℕ) (w : World) (t : Trace) : Prop where
  sent : ∃ wT before, t = ⟨.signalled group sigterm, wT⟩ :: before ∧
    wT.kernel.clock ≤ w.kernel.clock ∧ ¬wT.supervisor.Pending group ∧
    Working w.supervisor.cleanups before
  unlisted : ¬w.supervisor.Pending group

theorem announcing_steady (group : ℕ) : Steady (Announcing group) := by
  rintro w t events ⟨⟨wT, before, ht, hclock, hrest⟩, hunlisted⟩
  exact ⟨⟨wT, before, ht, hclock.trans (Kernel.clock_applyAll w.kernel events), hrest⟩, hunlisted⟩

theorem orderly_termed (w : World) (h : ∀ group, Orderly (signals group t)) (g : ℕ) :
    Orderly (signals g (⟨.signalled group sigterm, w⟩ :: t)) := by
  by_cases hg : group = g
  · subst hg
    rw [signals_cons_signalled]
    exact ⟨h group, Or.inl rfl⟩
  · rw [signals_cons_other g _ t fun signal he => hg (Action.signalled.inj he).1]
    exact h g

theorem free_termed {wT : World} (hfree : ¬wT.supervisor.Pending group) (h : Working cleanups t) :
    Always (fun entry _ => ∀ group, entry.action = .signalled group sigterm →
      ¬entry.world.supervisor.Pending group) (⟨.signalled group sigterm, wT⟩ :: t) := by
  refine (always_cons _ _ _).mpr ⟨fun g he => ?_, h.free⟩
  rw [← (Action.signalled.inj he).1]
  exact hfree

theorem protocol_of_announcing (h : Announcing group w t) : CleanupProtocol w t := by
  obtain ⟨⟨wT, before, rfl, -, hfree, hworking⟩, hunlisted⟩ := h
  refine
    { distinct := hworking.distinct
      termed := fun cleanup hm => ?_
      orderly := orderly_termed wT hworking.orderly
      free := free_termed hfree hworking
      settled := fun newer entry older g ht he => ?_ }
  · refine onceTermed_cons _ (fun signal he => hunlisted ⟨cleanup, hm, ?_⟩)
      (onceTermed_of_announced (hworking.announced cleanup hm))
    exact (Action.signalled.inj he).1.symm
  · cases newer with
    | nil => exact Or.inl rfl
    | cons first newer =>
      obtain ⟨rfl, hrest⟩ := List.cons.inj ht
      refine Or.inr ((hworking.settled newer entry older g hrest he).imp_right fun hdone => ?_)
      exact hdone.imp (mem_acts_of_mem [_]) (mem_acts_of_mem [_])

theorem working_scheduled (now : ℕ) (hnow : now = w.kernel.clock) (h : Announcing group w t) :
    Working (w.supervisor.cleanups ++
      [⟨group, now + shutdownGrace, now + shutdownGrace + killGrace, false⟩]) t := by
  obtain ⟨⟨wT, before, rfl, hclock, hfree, hworking⟩, hunlisted⟩ := h
  have hother : ∀ c ∈ w.supervisor.cleanups, c.group ≠ group :=
    fun c hm he => hunlisted ⟨c, hm, he⟩
  refine
    { distinct := ?_
      announced := fun c hc => ?_
      orderly := orderly_termed wT hworking.orderly
      free := free_termed hfree hworking
      settled := fun newer entry older g ht he => ?_ }
  · rw [List.map_append, List.map_singleton, List.nodup_append]
    refine ⟨hworking.distinct, List.nodup_singleton _, fun g hg g' hg' => ?_⟩
    obtain ⟨c, hm, rfl⟩ := List.mem_map.mp hg
    rw [List.mem_singleton.mp hg']
    exact hother c hm
  · rcases List.mem_append.mp hc with hc | hc
    · refine announced_cons _ (fun signal he => hother c hc ?_) (hworking.announced c hc)
      exact (Action.signalled.inj he).1.symm
    · rw [List.mem_singleton.mp hc]
      refine ⟨wT.kernel.clock, signals group before, ?_, Nat.le_add_right _ _, Or.inl ⟨rfl, ?_⟩⟩
      · show wT.kernel.clock + shutdownGrace ≤ now + shutdownGrace
        omega
      · exact signals_cons_signalled group sigterm wT before
  · cases newer with
    | nil =>
      obtain ⟨rfl, -⟩ := List.cons.inj ht
      refine Or.inl ⟨_, List.mem_append_right _ List.mem_cons_self, ?_⟩
      exact (Action.signalled.inj he).1
    | cons first newer =>
      obtain ⟨rfl, hrest⟩ := List.cons.inj ht
      rcases hworking.settled newer entry older g hrest he with ⟨c, hm, hg⟩ | hdone
      · exact Or.inl ⟨c, List.mem_append_left _ hm, hg⟩
      · exact Or.inr (hdone.imp (mem_acts_of_mem [_]) (mem_acts_of_mem [_]))

/-- Between two calls. -/
def Calm : Program.Assertion World Entry := fun w t => Working w.supervisor.cleanups t

theorem calm_steady : Steady Calm := fun _ _ _ h => h

theorem protocol_of_calm (w : World) (t : Trace) (h : Calm w t) : CleanupProtocol w t :=
  protocol_of_working rfl h

theorem calm_scheduleCleanup (group : ℕ) :
    Program.Triple Calm (scheduleCleanup group) (fun _ => Calm) CleanupProtocol := by
  have hcalm : SteadyIn (.triples CleanupProtocol) Calm := calm_steady.inTriples protocol_of_calm
  exact Program.Logic.triple (holds_scheduleCleanup group (A := fun _ => Calm)
    (S := Announcing group) hcalm (fun w t h => ⟨trivial, working_cons _ (by simp) h⟩)
    (fun _ _ _ _ h => h) hcalm
    (fun w t hfree h => ⟨trivial, ⟨w, t, rfl, Nat.le_refl _, hfree, h⟩, hfree⟩)
    ((announcing_steady group).inTriples fun _ _ => protocol_of_announcing)
    fun w t h => ⟨trivial, working_scheduled w.kernel.clock rfl h⟩)

/-! ### `process_cleanups` -/

/-- In the middle of a sweep over `cleanups` the list is still the old one; `current` is what
it will be if the rest of the sweep keeps everything. -/
structure Sweeps (now : ℕ) (cleanups current : List PendingCleanup) (w : World) (t : Trace) :
    Prop where
  same : w.supervisor.cleanups = cleanups
  distinct : (cleanups.map (·.group)).Nodup
  working : Working current t
  clock : now ≤ w.kernel.clock
  termed : ∀ cleanup ∈ cleanups, OnceTermed cleanup.group t
  listed : ∀ cleanup ∈ current, ∃ old ∈ cleanups, old.group = cleanup.group

variable {now : ℕ} {current : List PendingCleanup}

theorem sweeps_steady : Steady (Sweeps now cleanups current) := fun w _ events h =>
  { h with clock := h.clock.trans (Kernel.clock_applyAll w.kernel events) }

theorem protocol_of_sweeps (w : World) (t : Trace) (h : Sweeps now cleanups current w t) :
    CleanupProtocol w t where
  distinct := h.same ▸ h.distinct
  termed := fun cleanup hm => h.termed cleanup (h.same ▸ hm)
  orderly := h.working.orderly
  free := h.working.free
  settled := fun newer entry older group ht he => by
    refine Or.inr ((h.working.settled newer entry older group ht he).imp_left ?_)
    rintro ⟨cleanup, hm, rfl⟩
    obtain ⟨old, ho, hgroup⟩ := h.listed cleanup hm
    exact ⟨old, h.same ▸ ho, hgroup⟩

theorem sweeps_entry {next : List PendingCleanup} (entry : Entry)
    (hother : ∀ g signal, entry.action ≠ .signalled g signal)
    (hworking : Working next (entry :: t)) (hsub : next ⊆ current)
    (h : Sweeps now cleanups current w t) : Sweeps now cleanups next w (entry :: t) :=
  { h with
    working := hworking
    termed := fun cleanup hm => onceTermed_cons entry (hother cleanup.group) (h.termed cleanup hm)
    listed := fun cleanup hm => h.listed cleanup (hsub hm) }

theorem subset_drop (kept rest : List PendingCleanup) (cleanup : PendingCleanup) :
    kept ++ rest ⊆ kept ++ cleanup :: rest :=
  List.append_subset.mpr ⟨List.subset_append_left _ _,
    fun _ h => List.mem_append_right _ (List.mem_cons_of_mem _ h)⟩

theorem sweeps_killed (hfresh : cleanup.killed = false) (hdue : cleanup.killAt ≤ now)
    (h : Sweeps now cleanups (kept ++ cleanup :: rest) w t) :
    Sweeps now cleanups (kept ++ { cleanup with killed := true } :: rest) w
      (⟨.signalled cleanup.group sigkill, w⟩ :: t) := by
  have hworking := working_killed (w := w) rfl hfresh (hdue.trans h.clock) h.working
  refine { h with working := hworking, termed := fun c hm => ?_, listed := fun l hm => ?_ }
  · by_cases hgroup : c.group = cleanup.group
    · rw [hgroup]
      have hannounced := hworking.announced { cleanup with killed := true }
        (List.mem_append_right kept List.mem_cons_self)
      have honce := onceTermed_of_announced hannounced
      exact honce
    · exact onceTermed_cons _ (fun signal he => hgroup (Action.signalled.inj he).1.symm)
        (h.termed c hm)
  · rcases List.mem_append.mp hm with hm | hm
    · exact h.listed l (List.mem_append_left _ hm)
    rcases List.mem_cons.mp hm with rfl | hm
    · exact h.listed cleanup (List.mem_append_right _ List.mem_cons_self)
    · exact h.listed l (List.mem_append_right _ (List.mem_cons_of_mem _ hm))

theorem sweeps_processCleanup (cleanup : PendingCleanup) :
    Program.Triple (Sweeps now cleanups (kept ++ cleanup :: rest)) (processCleanup now cleanup)
      (fun left => Sweeps now cleanups (kept ++ left.toList ++ rest)) CleanupProtocol := by
  have hsteady : ∀ current, SteadyIn (.triples CleanupProtocol) (Sweeps now cleanups current) :=
    fun current => sweeps_steady.inTriples protocol_of_sweeps
  refine Program.Logic.triple (holds_processCleanup now cleanup
    (A := fun alive => Sweeps now cleanups (if alive then kept ++ cleanup :: rest else kept ++ rest))
    (K := fun left w t => (left.giveUpAt ≤ now → left.killed = true) ∧
      Sweeps now cleanups (kept ++ left :: rest) w t) (hsteady _) (fun w t h => ⟨trivial, ?_⟩)
    (fun w t h => ?_) (hsteady _)
    (fun hfresh hdue w t h => ⟨trivial, fun _ => rfl, sweeps_killed hfresh hdue h⟩)
    (fun hspared w t h => ⟨fun hlate => hspared ?_, h⟩)
    (fun left _ hover w t h => ⟨trivial, ?_⟩) fun left _ _ w t h => ?_)
  · cases halive : w.kernel.groupExists cleanup.group with
    | true =>
      exact sweeps_entry _ (by simp) (working_cons _ (by simp) h.working) (fun _ hm => hm) h
    | false =>
      exact sweeps_entry _ (by simp) (working_gone rfl h.working w)
        (subset_drop kept rest cleanup) h
  · rw [Option.toList_none, List.append_nil]
    exact h
  · obtain ⟨_, _, -, hle, -⟩ := h.working.announced cleanup
      (List.mem_append_right kept List.mem_cons_self)
    exact hle.trans hlate
  · rw [Option.toList_none, List.append_nil]
    exact sweeps_entry _ (by simp) (working_abandoned rfl (h.1 hover) h.2.working w)
      (subset_drop kept rest left) h.2
  · rw [Option.toList_some, List.append_assoc, List.singleton_append]
    exact h.2

theorem calm_processCleanups :
    Program.Triple Calm processCleanups (fun _ => Calm) CleanupProtocol := by
  refine Program.Logic.triple (holds_processCleanups
    (I := fun now cleanups done kept w t => ∀ rest, cleanups = done ++ rest →
      Sweeps now cleanups (kept ++ rest) w t) (calm_steady.inTriples protocol_of_calm)
    (fun w t h rest hrest => ?_) (fun now cleanups done kept cleanup rest hsplit => ?_)
    fun now cleanups kept w t h => ⟨trivial, ?_⟩)
  · obtain rfl : w.supervisor.cleanups = rest := hrest
    exact
      { same := rfl
        distinct := h.distinct
        working := h
        clock := Nat.le_refl _
        termed := fun cleanup hm => onceTermed_of_announced (h.announced cleanup hm)
        listed := fun cleanup hm => ⟨cleanup, hm, rfl⟩ }
  · refine Program.Logic.conseq _ (sweeps_processCleanup cleanup).holds
      (fun w t h => h (cleanup :: rest) hsplit) fun left w t h rest' hsplit' => ?_
    rw [hsplit, List.append_assoc, List.append_cancel_left_eq] at hsplit'
    obtain rfl : rest = rest' := (List.cons.inj hsplit').2
    exact h
  · have hdone := (h [] (List.append_nil _).symm).working
    rw [List.append_nil] at hdone
    exact hdone

/-! ### Any sequence of calls -/

inductive CleanupCall where
  | schedule (group : ℕ)
  | process
  deriving DecidableEq

def CleanupCall.perform : CleanupCall → Act Unit
  | .schedule group => scheduleCleanup group
  | .process => processCleanups

/-- Before every call the kernel is replaced: the answers of `process_group_exists` and the
clock readings of one call have nothing to do with those of another. -/
def cleanupCalls (calls : List (Kernel × CleanupCall)) : Act Unit :=
  Program.each (fun call => do
    setKernel call.1
    call.2.perform) calls

theorem calm_cleanupCalls (calls : List (Kernel × CleanupCall)) :
    Program.Triple Calm (cleanupCalls calls) (fun _ => Calm) CleanupProtocol := by
  refine Program.Logic.triple ?_
  refine Program.Logic.each _ (I := fun _ => Calm) _ calls fun done call rest _ => ?_
  refine Program.triple_bind _ _ (Program.triple_modify _ (R := Calm) fun w t h => h) fun _ => ?_
  cases call.2 with
  | schedule group => exact calm_scheduleCleanup group
  | process => exact calm_processCleanups

end Sandcamp.Campd
