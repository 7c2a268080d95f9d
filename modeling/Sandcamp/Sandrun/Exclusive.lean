import Sandcamp.Sandrun.Overlay

/-!
# Runs that share an overlay base

`Own` is what holds of one run between any two operations of any run: a workspace
it counts as its own is locked by it, and a layer it has mounted lies in such a
workspace, which is recorded for its identity. The others leave alone what a run
holds (`rely`), so each run can be checked on its own. A run works on the upper
directory of a workspace only when it is its own and is recorded for its identity
(`guard`).
-/

namespace Sandcamp.Sandrun
open Foundations

variable {ι : Type} {sha256 : Bytes → Bytes} {base : Position}
  {attributes : Bytes → Attributes} {runs : ι → OverlayRun}

def lockOf (workspace : Position) : Position := workspace ++ [lit "lock"]

def identityOf (workspace : Position) : Position := workspace ++ [lit "identity"]

/-- The identity of a run. -/
def OverlayRun.identity (run : OverlayRun) : Bytes := overlayIdentity run.overlayId run.lower

/-- The workspace of a run. -/
def OverlayRun.workspace (sha256 : Bytes → Bytes) (base : Position) (run : OverlayRun) : Position :=
  workspaceOf sha256 base run.overlayId run.lower

/-- The layers lie in this workspace. -/
def Layers.Within (layers : Layers) (workspace : Position) : Prop :=
  layers.upper = workspace ++ [lit "upper"] ∧ layers.work = workspace ++ [lit "work"] ∧
    ∃ name, layers.merged = workspace ++ [lit "merged"] ++ [name]

/-- The positions an operation works on. -/
def Operation.positions : Operation → List Position
  | .mkdirAll path | .mkdir path | .symlinkMetadata path | .openLock path | .flock path => [path]
  | .createNew path | .write path _ | .read path | .chown path _ _ | .chmod path _ => [path]
  | .mountOverlay _ layers => [layers.upper, layers.work, layers.merged]
  | .inheritLock | .instant | .rootfsMetadata _ | .isolate | .exec | .note _ => []

/-- The upper directory of the workspace with this name. -/
def upperOf (base : Position) (name : Bytes) : Position := base ++ [name] ++ [lit "upper"]

/-- An operation on an upper directory is on the run's own, which is recorded for it. -/
def UpperGuard (sha256 : Bytes → Bytes) (base : Position) (run : OverlayRun) (o : Operation)
    (s : Storage ι) : Prop :=
  ∀ name, upperOf base name ∈ o.positions → base ++ [name] = run.workspace sha256 base ∧
    s.files (identityOf (base ++ [name])) = some run.identity

structure Own (sha256 : Bytes → Bytes) (base : Position) (run : OverlayRun) (who : ι)
    (s : Storage ι) : Prop where
  locked : ∀ workspace, (s.progress who).workspace = some workspace →
    workspace = run.workspace sha256 base ∧ s.locks (lockOf workspace) = some who ∧
      s.descriptors who = some (lockOf workspace, false)
  recorded : (s.progress who).identified = true →
    (s.progress who).workspace = some (run.workspace sha256 base) ∧
      s.files (identityOf (run.workspace sha256 base)) = some run.identity
  mounted : ∀ layers, (s.progress who).layers = some layers →
    (s.progress who).identified = true ∧ layers.Within (run.workspace sha256 base)
  sources : ∀ source ∈ (s.progress who).sources, ∃ target ∈ run.diskMounts,
    source = diskMountSource sha256 base run.overlayId run.lower target

/-- Nothing was done to what the run holds. -/
structure Untouched (who : ι) (s s' : Storage ι) : Prop where
  progress : s'.progress who = s.progress who
  descriptors : s'.descriptors who = s.descriptors who
  locks : ∀ path, s.locks path = some who → s'.locks path = some who
  identity : ∀ workspace, s.locks (lockOf workspace) = some who →
    s'.files (identityOf workspace) = s.files (identityOf workspace)

theorem own_untouched {run : OverlayRun} {who : ι} {s s' : Storage ι}
    (h : Own sha256 base run who s) (hs : Untouched who s s') : Own sha256 base run who s' := by
  have hlocked : ∀ workspace, (s'.progress who).workspace = some workspace →
      workspace = run.workspace sha256 base ∧ s.locks (lockOf workspace) = some who ∧
        s.descriptors who = some (lockOf workspace, false) := by
    intro workspace hw
    rw [hs.progress] at hw
    exact h.locked workspace hw
  refine
    { locked := fun workspace hw => ?_
      recorded := fun hi => ?_
      mounted := fun layers hl => ?_
      sources := fun source hm => ?_ }
  · obtain ⟨hself, hlock, hdescriptor⟩ := hlocked workspace hw
    exact ⟨hself, hs.locks _ hlock, hs.descriptors.trans hdescriptor⟩
  · rw [hs.progress] at hi ⊢
    obtain ⟨hworkspace, hfile⟩ := h.recorded hi
    have hlock := (h.locked _ hworkspace).2.1
    exact ⟨hworkspace, (hs.identity _ hlock).trans hfile⟩
  · rw [hs.progress] at hl ⊢
    exact h.mounted layers hl
  · rw [hs.progress] at hm
    exact h.sources source hm

theorem own_of_none {run : OverlayRun} {who : ι} {s : Storage ι}
    (h : s.progress who = Progress.none) : Own sha256 base run who s := by
  constructor
  · intro workspace hw
    rw [h] at hw
    cases hw
  · intro hi
    rw [h] at hi
    cases hi
  · intro layers hl
    rw [h] at hl
    cases hl
  · intro source hm
    rw [h] at hm
    cases hm

theorem untouched_refl (who : ι) (s : Storage ι) : Untouched who s s :=
  ⟨rfl, rfl, fun _ h => h, fun _ _ => rfl⟩

variable [DecidableEq ι]

theorem locks_finish (s : Storage ι) (who other : ι) (path : Position) (h : other ≠ who)
    (hlock : s.locks path = some other) : (s.unlock who).locks path = some other := by
  have hne : s.locks path ≠ some who := by
    rw [hlock]
    intro he
    exact h (Option.some.inj he)
  show (if s.locks path = some who then none else s.locks path) = some other
  rw [if_neg hne, hlock]

theorem untouched_finish (s : Storage ι) (who other : ι) (h : other ≠ who) :
    Untouched other s (Storage.finish who s) where
  progress := Function.update_of_ne h _ _
  descriptors := Function.update_of_ne h _ _
  locks := fun path hlock => locks_finish s who other path h hlock
  identity := fun _ _ => rfl

/-- What every run keeps, and what the runs do not do to one another. -/
def discipline (sha256 : Bytes → Bytes) (base : Position) (attributes : Bytes → Attributes)
    (runs : ι → OverlayRun) : Machine.Discipline (machine (ι := ι) attributes) where
  inv s := ∀ who, Own sha256 base (runs who) who s
  guard who := UpperGuard sha256 base (runs who)
  rely := Untouched
  finish_inv who s h other := by
    by_cases hother : other = who
    · subst hother
      exact own_of_none (Function.update_self _ _ _)
    · exact own_untouched (h other) (untouched_finish s who other hother)
  finish_rely who other s h _ := untouched_finish s who other h

/-! ### Rules for one operation -/

section Rules

variable {who : ι} {s s' : Storage ι} {P : Storage ι → Prop}

/-- The routine of this run, checked on its own. -/
abbrev Checked {α : Type} (sha256 : Bytes → Bytes) (base : Position)
    (attributes : Bytes → Attributes) (runs : ι → OverlayRun) (who : ι) (P : Storage ι → Prop)
    (t : Routine α) (Q : α → Storage ι → Prop) : Prop :=
  Machine.Proves (discipline sha256 base attributes runs) who P t Q

/-- What the others do does not matter to `P`. -/
def Lasting (who : ι) (P : Storage ι → Prop) : Prop := ∀ s s', P s → Untouched who s s' → P s'

theorem allowed_of_others (h : ∀ other, Own sha256 base (runs other) other s)
    (hothers : ∀ other, other ≠ who → Untouched other s s')
    (hown : Own sha256 base (runs who) who s') :
    Machine.Allowed (discipline sha256 base attributes runs) who s s' where
  inv := fun other => by
    by_cases hother : other = who
    · subst hother
      exact hown
    · exact own_untouched (h other) (hothers other hother)
  rely := hothers

theorem allowed_of_untouched (h : ∀ other, Own sha256 base (runs other) other s)
    (hall : ∀ other, Untouched other s s') :
    Machine.Allowed (discipline sha256 base attributes runs) who s s' :=
  allowed_of_others h (fun other _ => hall other) (own_untouched (h who) (hall who))

theorem checked_require (condition : Bool) (error : RuntimeError) :
    Checked sha256 base attributes runs who P (require condition error)
      (fun _ s => condition = true ∧ P s) := by
  unfold require
  split
  · rename_i hc
    exact Machine.proves_pure _ fun _ h => ⟨hc, h⟩
  · trivial

/-- Operations that touch neither files nor locks. -/
def Operation.harmless : Operation → Bool
  | .mkdirAll _ | .mkdir _ | .symlinkMetadata _ | .read _ | .instant | .rootfsMetadata _
  | .chown .. | .chmod .. | .isolate => true
  | _ => false

theorem untouched_harmless (o : Operation) (h : o.harmless = true) (choice : Choice) (other : ι) :
    Untouched other s (perform attributes who o choice s).2 := by
  have heffect := effect_perform attributes who o choice s
  generalize (perform attributes who o choice s).2 = s' at heffect ⊢
  cases heffect with
  | nothing => exact untouched_refl other s
  | mkdirAll | mkdir | chown | chmod => exact ⟨rfl, rfl, fun _ h => h, fun _ _ => rfl⟩
  | openLock | flock | inheritLock | createNew | write | mountOverlay | exec | note => cases h

omit [DecidableEq ι] in
theorem guard_of_elsewhere (o : Operation) (h : ∀ name, upperOf base name ∉ o.positions)
    (run : OverlayRun) (s : Storage ι) : UpperGuard sha256 base run o s :=
  fun name hm => absurd hm (h name)

theorem checked_harmless (o : Operation) (h : o.harmless = true) (hP : Lasting who P)
    (hguard : ∀ s, Own sha256 base (runs who) who s → P s →
      UpperGuard sha256 base (runs who) o s) :
    Checked sha256 base attributes runs who P (call o) (fun _ => P) :=
  Machine.proves_perform o (fun _ => hP) (fun s hinv hp => hguard s (hinv who) hp)
    fun choice _ hinv hp =>
      ⟨allowed_of_untouched hinv fun other => untouched_harmless o h choice other,
        hP _ _ hp (untouched_harmless o h choice who)⟩

theorem checked_ensurePrivateDirectory (path : Position) (operation : String)
    (hP : Lasting who P) (hpath : ∀ name, upperOf base name ≠ path) :
    Checked sha256 base attributes runs who P (ensurePrivateDirectory path operation)
      (fun _ => P) := by
  have hguard : ∀ o : Operation, o.positions = [path] → ∀ s, Own sha256 base (runs who) who s →
      P s → UpperGuard sha256 base (runs who) o s := by
    intro o ho s _ _
    refine guard_of_elsewhere o (fun name hm => ?_) _ s
    rw [ho] at hm
    exact hpath name (List.mem_singleton.mp hm)
  refine Machine.proves_bind _ _ (checked_harmless _ rfl hP (hguard _ rfl)) fun made => ?_
  refine Machine.proves_bind _ _ (checked_require _ _) fun _ => ?_
  refine Machine.proves_pre _ (Machine.proves_bind _ _
    (checked_harmless _ rfl hP (hguard _ rfl)) fun metadata => ?_) fun _ _ h => h.2
  exact Machine.proves_post _ (checked_require _ _) fun _ _ h => h.2

theorem upperOf_ne_lock (name : Bytes) (workspace : Position) :
    upperOf base name ≠ lockOf workspace := by
  intro h
  have hlast := congrArg List.getLast? h
  simp [upperOf, lockOf, lit_inj] at hlast

theorem upperOf_ne_identity (name : Bytes) (workspace : Position) :
    upperOf base name ≠ identityOf workspace := by
  intro h
  have hlast := congrArg List.getLast? h
  simp [upperOf, identityOf, lit_inj] at hlast

theorem identity_ne_lock (v w : Position) : identityOf v ≠ lockOf w := by
  intro h
  have hlast := congrArg List.getLast? h
  simp [identityOf, lockOf, lit_inj] at hlast

theorem identityOf_injective {v w : Position} (h : identityOf v = identityOf w) : v = w :=
  List.append_cancel_right h

theorem untouched_advance (other : ι) (hother : other ≠ who) (f : Progress → Progress) :
    Untouched other s (s.advance who f) where
  progress := Function.update_of_ne hother _ _
  descriptors := rfl
  locks := fun _ h => h
  identity := fun _ _ => rfl

theorem advance_self (f : Progress → Progress) :
    (s.advance who f).progress who = f (s.progress who) := Function.update_self _ _ _

/-! ### The lock -/

/-- The run has the lock file open, `exec` closes it or not. -/
def Opened (who : ι) (path : Position) (closed : Bool) (s : Storage ι) : Prop :=
  s.descriptors who = some (path, closed)

/-- The run holds the lock through its descriptor. -/
def Held (who : ι) (path : Position) (closed : Bool) (s : Storage ι) : Prop :=
  Opened who path closed s ∧ s.locks path = some who

/-- How far the run says it has got. -/
def At (who : ι) (progress : Progress) (s : Storage ι) : Prop := s.progress who = progress

omit [DecidableEq ι] in
theorem lasting_opened (path : Position) (closed : Bool) : Lasting who (Opened who path closed) :=
  fun _ _ h hs => hs.descriptors.trans h

omit [DecidableEq ι] in
theorem lasting_held (path : Position) (closed : Bool) : Lasting who (Held who path closed) :=
  fun s s' h hs => ⟨lasting_opened path closed s s' h.1 hs, hs.locks _ h.2⟩

omit [DecidableEq ι] in
theorem lasting_at (progress : Progress) : Lasting who (At who progress) :=
  fun _ _ h hs => hs.progress.trans h

omit [DecidableEq ι] in
theorem lasting_and {P Q : Storage ι → Prop} (hP : Lasting who P) (hQ : Lasting who Q) :
    Lasting who fun s => P s ∧ Q s :=
  fun s s' h hs => ⟨hP s s' h.1 hs, hQ s s' h.2 hs⟩

omit [DecidableEq ι] in
theorem lasting_imp {P : Storage ι → Prop} (p : Prop) (hP : Lasting who P) :
    Lasting who fun s => p → P s :=
  fun s s' h hs hp => hP s s' (h hp) hs

theorem checked_openLock (workspace : Position) :
    Checked sha256 base attributes runs who (At who Progress.none)
      (call (.openLock (lockOf workspace)))
      fun opened s => At who Progress.none s ∧
        (opened = true → Opened who (lockOf workspace) true s) := by
  refine Machine.proves_perform _
    (fun opened => lasting_and (lasting_at _) (lasting_imp _ (lasting_opened _ _))) ?_ ?_
  · intro s _ _
    exact guard_of_elsewhere _
      (fun name hm => upperOf_ne_lock name workspace (List.mem_singleton.mp hm)) _ s
  · intro choice s hinv hp
    simp only [machine, perform]
    split
    · exact ⟨allowed_of_untouched hinv fun other => untouched_refl other s, hp, by simp⟩
    · refine ⟨allowed_of_others hinv (fun other hother => ?_) (own_of_none hp), hp, fun _ => ?_⟩
      · exact ⟨rfl, Function.update_of_ne hother _ _, fun _ h => h,
          fun v _ => Function.update_of_ne (identity_ne_lock v workspace) _ _⟩
      · exact Function.update_self _ _ _

theorem checked_flock (workspace : Position) :
    Checked sha256 base attributes runs who
      (fun s => At who Progress.none s ∧ Opened who (lockOf workspace) true s)
      (call (.flock (lockOf workspace)))
      fun locked s => At who Progress.none s ∧
        (locked = true → Held who (lockOf workspace) true s) := by
  refine Machine.proves_perform _
    (fun locked => lasting_and (lasting_at _) (lasting_imp _ (lasting_held _ _))) ?_ ?_
  · intro s _ _
    exact guard_of_elsewhere _
      (fun name hm => upperOf_ne_lock name workspace (List.mem_singleton.mp hm)) _ s
  · intro choice s hinv hp
    have hsame : Machine.Allowed (discipline sha256 base attributes runs) who s s :=
      allowed_of_untouched hinv fun other => untouched_refl other s
    simp only [machine, perform]
    split
    · exact ⟨hsame, hp.1, by simp⟩
    · split
      · rename_i holder hlock
        refine ⟨hsame, hp.1, fun hself => ⟨hp.2, ?_⟩⟩
        rw [hlock, of_decide_eq_true hself]
      · rename_i hfree
        refine ⟨allowed_of_others hinv (fun other hother => ?_) (own_of_none hp.1), hp.1,
          fun _ => ⟨hp.2, Function.update_self _ _ _⟩⟩
        refine ⟨rfl, rfl, fun path hpath => ?_, fun _ _ => rfl⟩
        have hne : path ≠ lockOf workspace := by
          rintro rfl
          rw [hfree] at hpath
          cases hpath
        exact (Function.update_of_ne hne _ _).trans hpath

theorem checked_inheritLock (workspace : Position) :
    Checked sha256 base attributes runs who
      (fun s => At who Progress.none s ∧ Held who (lockOf workspace) true s) (call .inheritLock)
      fun inherited s => At who Progress.none s ∧
        (inherited = true → Held who (lockOf workspace) false s) := by
  refine Machine.proves_perform _
    (fun inherited => lasting_and (lasting_at _) (lasting_imp _ (lasting_held _ _))) ?_ ?_
  · intro s _ _
    exact guard_of_elsewhere _ (fun name hm => absurd hm List.not_mem_nil) _ s
  · intro choice s hinv hp
    simp only [machine, perform]
    split
    · exact ⟨allowed_of_untouched hinv fun other => untouched_refl other s, hp.1, by simp⟩
    · refine ⟨allowed_of_others hinv (fun other hother => ?_) (own_of_none hp.1), hp.1, fun _ => ?_⟩
      · exact ⟨rfl, Function.update_of_ne hother _ _, fun _ h => h, fun _ _ => rfl⟩
      · refine ⟨?_, hp.2.2⟩
        have hopened : s.descriptors who = some (lockOf workspace, true) := hp.2.1
        show Function.update s.descriptors who _ who = _
        rw [Function.update_self, hopened]
        rfl

theorem checked_acquireOverlayLock (workspace : Position) :
    Checked sha256 base attributes runs who (At who Progress.none)
      (acquireOverlayLock (lockOf workspace))
      fun _ s => At who Progress.none s ∧ Held who (lockOf workspace) false s := by
  refine Machine.proves_bind _ _ (checked_openLock workspace) fun opened => ?_
  refine Machine.proves_bind _ _ (checked_require _ _) fun _ => ?_
  refine Machine.proves_pre _ (Machine.proves_bind _ _ (checked_flock workspace) fun locked => ?_)
    fun _ _ h => ⟨h.2.1, h.2.2 h.1⟩
  refine Machine.proves_bind _ _ (checked_require _ _) fun _ => ?_
  refine Machine.proves_pre _ (Machine.proves_bind _ _ (checked_inheritLock workspace)
    fun inherited => ?_) fun _ _ h => ⟨h.2.1, h.2.2 h.1⟩
  exact Machine.proves_post _ (checked_require _ _) fun _ _ h => ⟨h.2.1, h.2.2 h.1⟩

end Rules

end Sandcamp.Sandrun
