import Sandcamp.Sandrun.Exclusive

/-!
# The workspace of a run

Each routine of a run is checked on its own against the discipline: with the lock
comes the workspace, with the identity file its upper directory, and after the
mount nothing the run does takes them away again.
-/

namespace Sandcamp.Sandrun
open Foundations

variable {ι : Type} [DecidableEq ι] {sha256 : Bytes → Bytes} {base : Position}
  {attributes : Bytes → Attributes} {runs : ι → OverlayRun} {who : ι} {s : Storage ι}

/-! ### The identity file -/

/-- The run holds the lock of the workspace, whose identity file says this. -/
def Reads (who : ι) (workspace : Position) (contents : Bytes) (s : Storage ι) : Prop :=
  s.locks (lockOf workspace) = some who ∧ s.files (identityOf workspace) = some contents

/-- The progress of a run that has the lock of this workspace. -/
def Progress.acquired (workspace : Position) : Progress :=
  Progress.none.take (.acquired workspace)

/-- The run has checked its identity. -/
def Identified (who : ι) (s : Storage ι) : Prop := (s.progress who).identified = true

omit [DecidableEq ι] in
theorem lasting_reads (workspace : Position) (contents : Bytes) :
    Lasting who (Reads who workspace contents) := by
  intro s s' h hs
  have hfile := hs.identity workspace h.1
  exact ⟨hs.locks _ h.1, hfile.trans h.2⟩

omit [DecidableEq ι] in
theorem lasting_identified : Lasting who (Identified who) := by
  intro s s' h hs
  unfold Identified
  rw [hs.progress]
  exact h

omit [DecidableEq ι] in
theorem held_of_acquired {run : OverlayRun} (h : Own sha256 base run who s)
    (hat : At who (Progress.acquired (run.workspace sha256 base)) s) :
    Held who (lockOf (run.workspace sha256 base)) false s := by
  have hworkspace : (s.progress who).workspace = some (run.workspace sha256 base) := by
    rw [hat]
    rfl
  have hlocked := h.locked _ hworkspace
  exact ⟨hlocked.2.2, hlocked.2.1⟩

omit [DecidableEq ι] in
theorem own_acquired {run : OverlayRun}
    (hat : At who (Progress.acquired (run.workspace sha256 base)) s)
    (hheld : Held who (lockOf (run.workspace sha256 base)) false s) :
    Own sha256 base run who s := by
  constructor
  · intro workspace hw
    rw [hat] at hw
    obtain rfl := Option.some.inj hw
    exact ⟨rfl, hheld.2, hheld.1⟩
  · intro hi
    rw [hat] at hi
    cases hi
  · intro layers hl
    rw [hat] at hl
    cases hl
  · intro source hm
    rw [hat] at hm
    cases hm

theorem checked_noteAcquired :
    Checked sha256 base attributes runs who
      (fun s => At who Progress.none s ∧
        Held who (lockOf ((runs who).workspace sha256 base)) false s)
      (call (.note (.acquired ((runs who).workspace sha256 base))))
      fun _ => At who (Progress.acquired ((runs who).workspace sha256 base)) := by
  refine Machine.proves_perform _ (fun _ => lasting_at _) ?_ ?_
  · intro s _ _
    exact guard_of_elsewhere _ (fun name hm => absurd hm List.not_mem_nil) _ s
  · intro choice s hinv hp
    let take := fun progress : Progress =>
      progress.take (.acquired ((runs who).workspace sha256 base))
    have hat : (s.advance who take).progress who =
        Progress.acquired ((runs who).workspace sha256 base) := by
      rw [advance_self, show s.progress who = Progress.none from hp.1]
      rfl
    exact ⟨allowed_of_others hinv (fun other hother => untouched_advance other hother take)
      (own_acquired hat hp.2), hat⟩

/-- While a run has the lock, only it works on the identity file. -/
theorem allowed_setFile (h : ∀ other, Own sha256 base (runs other) other s)
    (hat : At who (Progress.acquired ((runs who).workspace sha256 base)) s) (contents : Bytes) :
    Machine.Allowed (discipline sha256 base attributes runs) who s
      (s.setFile (identityOf ((runs who).workspace sha256 base)) contents) := by
  have hheld := held_of_acquired (h who) hat
  refine allowed_of_others h (fun other hother => ?_) (own_acquired hat hheld)
  refine ⟨rfl, rfl, fun _ hl => hl, fun v hv => ?_⟩
  have hne : identityOf v ≠ identityOf ((runs who).workspace sha256 base) := by
    intro he
    rw [identityOf_injective he, hheld.2] at hv
    exact hother (Option.some.inj hv).symm
  exact Function.update_of_ne hne _ _

omit [DecidableEq ι] in
theorem reads_setFile (h : Own sha256 base (runs who) who s)
    (hat : At who (Progress.acquired ((runs who).workspace sha256 base)) s) (contents : Bytes) :
    Reads who ((runs who).workspace sha256 base) contents
      (s.setFile (identityOf ((runs who).workspace sha256 base)) contents) := by
  exact ⟨(held_of_acquired h hat).2, Function.update_self _ _ _⟩

omit [DecidableEq ι] in
theorem guard_of_identity (workspace : Position) (o : Operation)
    (ho : o.positions = [identityOf workspace]) (run : OverlayRun) (s : Storage ι) :
    UpperGuard sha256 base run o s := by
  refine guard_of_elsewhere o (fun name hm => ?_) run s
  rw [ho] at hm
  exact upperOf_ne_identity name workspace (List.mem_singleton.mp hm)

theorem checked_createNew :
    Checked sha256 base attributes runs who
      (At who (Progress.acquired ((runs who).workspace sha256 base)))
      (call (.createNew (identityOf ((runs who).workspace sha256 base))))
      fun creation s => At who (Progress.acquired ((runs who).workspace sha256 base)) s ∧
        (creation = .created → Reads who ((runs who).workspace sha256 base) [] s) := by
  refine Machine.proves_perform _
    (fun creation => lasting_and (lasting_at _) (lasting_imp _ (lasting_reads _ _))) ?_ ?_
  · intro s _ _
    exact guard_of_identity _ _ rfl _ s
  · intro choice s hinv hp
    have hsame : Machine.Allowed (discipline sha256 base attributes runs) who s s :=
      allowed_of_untouched hinv fun other => untouched_refl other s
    simp only [machine, perform]
    split
    · exact ⟨hsame, hp, by simp⟩
    · split
      · exact ⟨hsame, hp, by simp⟩
      · exact ⟨allowed_setFile hinv hp [], hp, fun _ => reads_setFile (hinv who) hp []⟩

theorem checked_write (done bytes : Bytes) :
    Checked sha256 base attributes runs who
      (fun s => At who (Progress.acquired ((runs who).workspace sha256 base)) s ∧
        Reads who ((runs who).workspace sha256 base) done s)
      (call (.write (identityOf ((runs who).workspace sha256 base)) bytes))
      fun written s => At who (Progress.acquired ((runs who).workspace sha256 base)) s ∧
        ∀ count, written = some count → (bytes ≠ [] → 0 < count) ∧
          Reads who ((runs who).workspace sha256 base) (done ++ bytes.take count) s := by
  refine Machine.proves_perform _ (fun written => ?_) ?_ ?_
  · refine lasting_and (lasting_at _) fun s s' h hs count hcount => ?_
    exact ⟨(h count hcount).1, lasting_reads _ _ s s' (h count hcount).2 hs⟩
  · intro s _ _
    exact guard_of_identity _ _ rfl _ s
  · intro choice s hinv hp
    simp only [machine, perform]
    split
    · exact ⟨allowed_of_untouched hinv fun other => untouched_refl other s, hp.1, by simp⟩
    · refine ⟨allowed_setFile hinv hp.1 _, hp.1, fun count hcount => ?_⟩
      obtain rfl := Option.some.inj hcount
      refine ⟨fun hne => ?_, ?_⟩
      · have hlength := List.length_pos_iff.mpr hne
        omega
      · rw [show s.files (identityOf _) = some done from hp.2.2]
        exact reads_setFile (hinv who) hp.1 _

theorem checked_writeAll (fuel : ℕ) (done bytes : Bytes) (hfuel : bytes.length ≤ fuel) :
    Checked sha256 base attributes runs who
      (fun s => At who (Progress.acquired ((runs who).workspace sha256 base)) s ∧
        Reads who ((runs who).workspace sha256 base) done s)
      (writeAll (identityOf ((runs who).workspace sha256 base)) fuel bytes)
      fun written s => At who (Progress.acquired ((runs who).workspace sha256 base)) s ∧
        (written = true → Reads who ((runs who).workspace sha256 base) (done ++ bytes) s) := by
  induction fuel generalizing done bytes with
  | zero =>
    have hnil : bytes = [] := List.length_eq_zero_iff.mp (by omega)
    subst hnil
    exact Machine.proves_pure _ fun s h => ⟨h.1, fun _ => by rw [List.append_nil]; exact h.2⟩
  | succ fuel ih =>
    unfold writeAll
    split
    · rename_i hnil
      subst hnil
      exact Machine.proves_pure _ fun s h => ⟨h.1, fun _ => by rw [List.append_nil]; exact h.2⟩
    · rename_i hne
      refine Machine.proves_bind _ _ (checked_write done bytes) fun written => ?_
      cases written with
      | none => exact Machine.proves_pure _ fun s h => ⟨h.1, by simp⟩
      | some count =>
        by_cases hcount : count = 0
        · refine Machine.proves_false _ fun s _ h => ?_
          have hpos := (h.2 count rfl).1 hne
          omega
        · have hleft : (bytes.drop count).length ≤ fuel := by
            rw [List.length_drop]
            omega
          refine Machine.proves_pre _ (Machine.proves_post _ (ih (done ++ bytes.take count)
            (bytes.drop count) hleft) fun ok s h => ⟨h.1, fun hok => ?_⟩)
            fun s _ h => ⟨h.1, (h.2 count rfl).2⟩
          have hall := h.2 hok
          rwa [List.append_assoc, List.take_append_drop] at hall

theorem checked_read :
    Checked sha256 base attributes runs who
      (At who (Progress.acquired ((runs who).workspace sha256 base)))
      (call (.read (identityOf ((runs who).workspace sha256 base))))
      fun answer s => At who (Progress.acquired ((runs who).workspace sha256 base)) s ∧
        ∀ contents, answer = some contents →
          Reads who ((runs who).workspace sha256 base) contents s := by
  refine Machine.proves_perform _ (fun answer => ?_) ?_ ?_
  · exact lasting_and (lasting_at _) fun s s' h hs contents hc =>
      lasting_reads _ _ s s' (h contents hc) hs
  · intro s _ _
    exact guard_of_identity _ _ rfl _ s
  · intro choice s hinv hp
    refine ⟨allowed_of_untouched hinv fun other => untouched_refl other s, hp, ?_⟩
    intro contents hc
    refine ⟨(held_of_acquired (hinv who) hp).2, ?_⟩
    simp only [machine, perform] at hc
    split at hc
    · cases hc
    · exact hc

/-- Past `ensure_identity` the file says what the run is, whoever made it. -/
theorem checked_ensureIdentity (expected : Bytes) :
    Checked sha256 base attributes runs who
      (At who (Progress.acquired ((runs who).workspace sha256 base)))
      (ensureIdentity (identityOf ((runs who).workspace sha256 base)) expected)
      fun _ s => At who (Progress.acquired ((runs who).workspace sha256 base)) s ∧
        Reads who ((runs who).workspace sha256 base) expected s := by
  refine Machine.proves_bind _ _ checked_createNew fun creation => ?_
  cases creation with
  | created =>
    refine Machine.proves_pre _ (Machine.proves_bind _ _
      (checked_writeAll expected.length [] expected le_rfl) fun written => ?_)
      fun s _ h => ⟨h.1, h.2 rfl⟩
    exact Machine.proves_post _ (checked_require _ _) fun _ s h => ⟨h.2.1, h.2.2 h.1⟩
  | alreadyExists =>
    refine Machine.proves_pre _ (Machine.proves_bind _ _ checked_read fun answer => ?_)
      fun s _ h => h.1
    cases answer with
    | none => trivial
    | some actual =>
      refine Machine.proves_post _ (checked_require _ _) fun _ s h => ?_
      obtain rfl := of_decide_eq_true h.1
      exact ⟨h.2.1, h.2.2 _ rfl⟩
  | failed => trivial

/-- A run may change its progress where it keeps its workspace and its identity, and
accounts for its layers and its sources. -/
theorem allowed_advance (h : ∀ other, Own sha256 base (runs other) other s)
    (f : Progress → Progress) (hworkspace : ∀ p, (f p).workspace = p.workspace)
    (hidentified : ∀ p, (f p).identified = p.identified)
    (hlayers : ∀ layers, (f (s.progress who)).layers = some layers →
      Identified who s ∧ layers.Within ((runs who).workspace sha256 base))
    (hsources : ∀ source ∈ (f (s.progress who)).sources, ∃ target ∈ (runs who).diskMounts,
      source = diskMountSource sha256 base (runs who).overlayId (runs who).lower target) :
    Machine.Allowed (discipline sha256 base attributes runs) who s (s.advance who f) := by
  refine allowed_of_others h (fun other hother => untouched_advance other hother f) ?_
  constructor
  · intro workspace hw
    rw [advance_self, hworkspace] at hw
    exact (h who).locked workspace hw
  · intro hi
    rw [advance_self, hidentified] at hi
    rw [advance_self, hworkspace]
    exact (h who).recorded hi
  · intro layers hl
    rw [advance_self] at hl
    rw [advance_self, hidentified]
    exact hlayers layers hl
  · intro source hm
    rw [advance_self] at hm
    exact hsources source hm

theorem checked_noteIdentified :
    Checked sha256 base attributes runs who
      (fun s => At who (Progress.acquired ((runs who).workspace sha256 base)) s ∧
        Reads who ((runs who).workspace sha256 base) (runs who).identity s)
      (call (.note .identified)) fun _ => Identified who := by
  refine Machine.proves_perform _ (fun _ => lasting_identified) ?_ ?_
  · intro s _ _
    exact guard_of_elsewhere _ (fun name hm => absurd hm List.not_mem_nil) _ s
  · intro choice s hinv hp
    let take := fun progress : Progress => progress.take .identified
    have hnow : (s.advance who take).progress who =
        take (Progress.acquired ((runs who).workspace sha256 base)) := by
      rw [advance_self, show s.progress who = _ from hp.1]
    have hown : Own sha256 base (runs who) who (s.advance who take) := by
      have hheld := held_of_acquired (hinv who) hp.1
      constructor
      · intro workspace hw
        rw [hnow] at hw
        obtain rfl := Option.some.inj hw
        exact ⟨rfl, hheld.2, hheld.1⟩
      · intro _
        rw [hnow]
        exact ⟨rfl, hp.2.2⟩
      · intro layers hl
        rw [hnow] at hl
        cases hl
      · intro source hm
        rw [hnow] at hm
        cases hm
    refine ⟨allowed_of_others hinv
      (fun other hother => untouched_advance other hother take) hown, ?_⟩
    show ((s.advance who take).progress who).identified = true
    rw [hnow]
    rfl

/-! ### The layers -/

theorem checked_tryWorkspaces (parent : Position) (pid nonce : ℕ) (attempts : List ℕ)
    {P : Storage ι → Prop} (hP : Lasting who P)
    (hparent : ∀ name child, upperOf base name ≠ parent ++ [child]) :
    Checked sha256 base attributes runs who P (tryWorkspaces parent pid nonce attempts)
      fun made s => P s ∧ ∃ name, made = parent ++ [name] := by
  induction attempts with
  | nil => trivial
  | cons attempt rest ih =>
    refine Machine.proves_bind _ _ (checked_harmless _ rfl hP fun s _ _ => ?_) fun creation => ?_
    · exact guard_of_elsewhere _
        (fun name hm => hparent name _ (List.mem_singleton.mp hm)) _ s
    · cases creation with
      | created => exact Machine.proves_pure _ fun s h => ⟨h, _, rfl⟩
      | alreadyExists => exact ih
      | failed => trivial

theorem checked_createOverlayWorkspace (parent : Position) {P : Storage ι → Prop}
    (hP : Lasting who P) (hparent : ∀ name child, upperOf base name ≠ parent ++ [child]) :
    Checked sha256 base attributes runs who P (createOverlayWorkspace parent)
      fun made s => P s ∧ ∃ name, made = parent ++ [name] := by
  refine Machine.proves_bind _ _ (checked_harmless _ rfl hP fun s _ _ => ?_) fun instant => ?_
  · exact guard_of_elsewhere _ (fun name hm => absurd hm List.not_mem_nil) _ s
  · exact checked_tryWorkspaces parent instant.1 instant.2 (List.range 128) hP hparent

theorem upperOf_ne_workspace (name workspace : Bytes) : upperOf base name ≠ base ++ [workspace] := by
  intro h
  have hlength := congrArg List.length h
  simp [upperOf] at hlength

theorem upperOf_ne_child (name : Bytes) (workspace : Position) (child : String)
    (hchild : child ≠ "upper") : upperOf base name ≠ workspace ++ [lit child] := by
  intro h
  have hlast := congrArg List.getLast? h
  simp only [upperOf, List.getLast?_append, List.getLast?_singleton, Option.some_or,
    Option.some.injEq, lit_inj] at hlast
  exact hchild hlast.symm

theorem upperOf_ne_merged (name workspace child : Bytes) :
    upperOf base name ≠ base ++ [workspace] ++ [lit "merged"] ++ [child] := by
  intro h
  have hlength := congrArg List.length h
  simp [upperOf] at hlength

/-- Past `stable_overlay_paths` the layers lie in the run's own workspace, which is
recorded for it. -/
theorem checked_stableOverlayPaths :
    Checked sha256 base attributes runs who (At who Progress.none)
      (stableOverlayPaths sha256 base (runs who).lower (runs who).overlayId)
      fun layers s => Identified who s ∧ layers.Within ((runs who).workspace sha256 base) := by
  refine Machine.proves_bind _ _ (checked_ensurePrivateDirectory _ _ (lasting_at _)
    fun name => upperOf_ne_workspace name _) fun _ => ?_
  refine Machine.proves_bind _ _ (checked_acquireOverlayLock _) fun _ => ?_
  refine Machine.proves_bind _ _ checked_noteAcquired fun _ => ?_
  refine Machine.proves_bind _ _ (checked_ensureIdentity _) fun _ => ?_
  refine Machine.proves_bind _ _ checked_noteIdentified fun _ => ?_
  refine Machine.proves_bind _ _ (checked_ensurePrivateDirectory _ _ lasting_identified
    fun name => upperOf_ne_child name _ _ (by decide)) fun _ => ?_
  refine Machine.proves_bind _ _ (checked_ensurePrivateDirectory _ _ lasting_identified
    fun name => upperOf_ne_child name _ _ (by decide)) fun _ => ?_
  refine Machine.proves_bind _ _ (checked_createOverlayWorkspace _ lasting_identified
    fun name child => upperOf_ne_merged name _ child) fun merged => ?_
  refine Machine.proves_pure _ fun s h => ?_
  obtain ⟨hidentified, name, rfl⟩ := h
  exact ⟨hidentified, rfl, rfl, name, rfl⟩

omit [DecidableEq ι] in
/-- What the run works on is its own upper directory, if it is one. -/
theorem guard_of_identified {run : OverlayRun} (h : Own sha256 base run who s)
    (hidentified : Identified who s) (o : Operation)
    (ho : ∀ name, upperOf base name ∈ o.positions →
      upperOf base name = run.workspace sha256 base ++ [lit "upper"]) :
    UpperGuard sha256 base run o s := by
  intro name hm
  have hself : base ++ [name] = run.workspace sha256 base :=
    List.append_cancel_right (ho name hm)
  rw [hself]
  exact ⟨rfl, (h.recorded hidentified).2⟩

theorem checked_upper (o : Operation) (hharmless : o.harmless = true)
    (ho : ∀ position ∈ o.positions, position = (runs who).workspace sha256 base ++ [lit "upper"]) :
    Checked sha256 base attributes runs who (Identified who) (call o) fun _ => Identified who :=
  checked_harmless o hharmless lasting_identified fun _ hown hidentified =>
    guard_of_identified hown hidentified o fun _ hm => ho _ hm

theorem checked_copyRootMetadata (lower : Bytes) :
    Checked sha256 base attributes runs who (Identified who)
      (copyRootMetadata ((runs who).workspace sha256 base ++ [lit "upper"]) lower)
      fun _ => Identified who := by
  refine Machine.proves_bind _ _ (checked_upper _ rfl nofun) fun metadata => ?_
  cases metadata with
  | none => trivial
  | some metadata =>
    refine Machine.proves_bind _ _ (checked_upper _ rfl fun _ => List.mem_singleton.mp)
      fun owned => ?_
    refine Machine.proves_bind _ _ (checked_require _ _) fun _ => ?_
    refine Machine.proves_pre _ (Machine.proves_bind _ _
      (checked_upper _ rfl fun _ => List.mem_singleton.mp) fun changed => ?_) fun _ _ h => h.2
    exact Machine.proves_post _ (checked_require _ _) fun _ _ h => h.2

theorem checked_ensureOverlayUpperDirectory (lower : Bytes) :
    Checked sha256 base attributes runs who (Identified who)
      (ensureOverlayUpperDirectory ((runs who).workspace sha256 base ++ [lit "upper"]) lower)
      fun _ => Identified who := by
  refine Machine.proves_bind _ _ (checked_upper _ rfl fun _ => List.mem_singleton.mp)
    fun creation => ?_
  refine Machine.proves_bind _ _ (checked_require _ _) fun _ => ?_
  refine Machine.proves_pre _ (Machine.proves_bind _ _
    (checked_upper _ rfl fun _ => List.mem_singleton.mp) fun metadata => ?_) fun _ _ h => h.2
  refine Machine.proves_bind _ _ (checked_require _ _) fun _ => ?_
  refine Machine.proves_pre _ ?_ fun _ _ h => h.2
  split
  · exact checked_copyRootMetadata lower
  · exact Machine.proves_pure _ fun _ h => h

theorem checked_mountOverlay (lower : Bytes) (layers : Layers)
    (hlayers : layers.Within ((runs who).workspace sha256 base)) :
    Checked sha256 base attributes runs who (Identified who) (call (.mountOverlay lower layers))
      fun _ => Identified who := by
  refine Machine.proves_perform _ (fun _ => lasting_identified) ?_ ?_
  · intro s hinv hp
    refine guard_of_identified (hinv who) hp _ fun name hm => ?_
    obtain ⟨hupper, hwork, child, hmerged⟩ := hlayers
    simp only [Operation.positions, List.mem_cons, List.not_mem_nil, or_false] at hm
    rcases hm with hm | hm | hm
    · exact hm.trans hupper
    · exact absurd (hm.trans hwork) (upperOf_ne_child name _ _ (by decide))
    · exact absurd (hm.trans hmerged) (upperOf_ne_merged name _ child)
  · intro choice s hinv hp
    simp only [machine, perform]
    split
    · exact ⟨allowed_of_untouched hinv fun other => untouched_refl other s, hp⟩
    · refine ⟨allowed_advance hinv (fun progress => { progress with layers := some layers })
        (fun _ => rfl) (fun _ => rfl) (fun mounted hm => ?_) (hinv who).sources, ?_⟩
      · obtain rfl := Option.some.inj hm
        exact ⟨hp, hlayers⟩
      · unfold Identified
        rw [advance_self]
        exact hp

theorem checked_mountOverlayRootfs :
    Checked sha256 base attributes runs who (At who Progress.none)
      (mountOverlayRootfs sha256 base (runs who).lower (some (runs who).overlayId))
      fun _ => Identified who := by
  have hbase : ∀ name, upperOf base name ≠ base := by
    intro name h
    have hlength := congrArg List.length h
    simp [upperOf] at hlength
  refine Machine.proves_bind _ _ (checked_require _ _) fun _ => ?_
  refine Machine.proves_pre _ (Machine.proves_bind _ _
    (checked_ensurePrivateDirectory _ _ (lasting_at _) hbase) fun _ => ?_) fun _ _ h => h.2
  refine Machine.proves_bind _ _ checked_stableOverlayPaths fun layers => ?_
  by_cases hlayers : layers.Within ((runs who).workspace sha256 base)
  · refine Machine.proves_pre _ ?_ fun _ _ h => h.1
    rw [hlayers.1]
    refine Machine.proves_bind _ _ (checked_ensureOverlayUpperDirectory _) fun _ => ?_
    refine Machine.proves_bind _ _ (checked_mountOverlay _ _ hlayers) fun mounted => ?_
    refine Machine.proves_bind _ _ (checked_require _ _) fun _ => ?_
    exact Machine.proves_pure _ fun _ h => h.2
  · exact Machine.proves_false _ fun _ _ h => hlayers h.2

/-! ### The disk directories -/

theorem upperOf_ne_diskMountBase (name : Bytes) : upperOf base name ≠ diskMountBase base := by
  intro h
  have hlength := congrArg List.length h
  simp [upperOf, diskMountBase] at hlength

theorem hexLower_length (bytes : Bytes) : (hexLower bytes).length = 2 * bytes.length := by
  induction bytes with
  | nil => rfl
  | cons b rest ih =>
    simp only [hexLower, List.flatMap_cons, List.length_append, List.length_cons,
      List.length_nil] at ih ⊢
    omega

/-- A digest of any length is written with an even number of digits. -/
theorem hexLower_ne_diskMounts (digest : Bytes) : hexLower digest ≠ lit "disk-mounts" := by
  intro h
  have hlength := congrArg List.length h
  rw [hexLower_length, show (lit "disk-mounts").length = 11 by decide] at hlength
  omega

theorem upperOf_ne_diskMountSource (name overlayId lower target : Bytes) :
    upperOf base name ≠ diskMountSource sha256 base overlayId lower target := by
  intro h
  have hlast := congrArg List.getLast? h
  simp only [upperOf, diskMountSource, List.getLast?_append, List.getLast?_singleton,
    Option.some_or, Option.some.injEq] at hlast
  have hlength := congrArg List.length hlast
  rw [hexLower_length, show (lit "upper").length = 5 by decide] at hlength
  omega

theorem checked_noteSource (target : Bytes) (htarget : target ∈ (runs who).diskMounts) :
    Checked sha256 base attributes runs who (fun _ => True)
      (call (.note (.source (diskMountSource sha256 base (runs who).overlayId (runs who).lower
        target)))) fun _ _ => True := by
  refine Machine.proves_perform _ (fun _ _ _ _ _ => trivial) ?_ ?_
  · intro s _ _
    exact guard_of_elsewhere _ (fun name hm => absurd hm List.not_mem_nil) _ s
  · intro choice s hinv _
    let source := diskMountSource sha256 base (runs who).overlayId (runs who).lower target
    refine ⟨allowed_advance hinv (fun progress => progress.take (.source source))
      (fun _ => rfl) (fun _ => rfl) (hinv who).mounted ?_, trivial⟩
    intro source hm
    rcases List.mem_append.mp hm with hold | hnew
    · exact (hinv who).sources source hold
    · exact ⟨target, htarget, List.mem_singleton.mp hnew⟩

theorem checked_prepareDiskSources (targets : List Bytes)
    (htargets : ∀ target ∈ targets, target ∈ (runs who).diskMounts) :
    Checked sha256 base attributes runs who (fun _ => True)
      (prepareDiskSources sha256 base (runs who).overlayId (runs who).lower targets)
      fun _ _ => True := by
  induction targets with
  | nil => exact Machine.proves_pure _ fun _ _ => trivial
  | cons target rest ih =>
    refine Machine.proves_bind _ _ (checked_ensurePrivateDirectory _ _ (fun _ _ _ _ => trivial)
      fun name => upperOf_ne_diskMountSource name _ _ _) fun _ => ?_
    refine Machine.proves_bind _ _
      (checked_noteSource target (htargets target List.mem_cons_self)) fun _ => ?_
    exact ih fun target hm => htargets target (List.mem_cons_of_mem _ hm)

theorem checked_prepareDiskBase :
    Checked sha256 base attributes runs who (fun _ => True)
      (prepareDiskBase sha256 base (runs who).overlayId (runs who).lower (runs who).diskMounts)
      fun _ _ => True := by
  unfold prepareDiskBase
  split
  · exact Machine.proves_pure _ fun _ _ => trivial
  · refine Machine.proves_bind _ _ (checked_ensurePrivateDirectory _ _ (fun _ _ _ _ => trivial)
      fun name => upperOf_ne_diskMountBase name) fun _ => ?_
    exact checked_prepareDiskSources _ fun _ hm => hm

/-! ### The whole run -/

theorem untouched_closeOnExec (other : ι) (hother : other ≠ who) :
    Untouched other s (s.closeOnExec who) := by
  unfold Storage.closeOnExec
  split
  · exact
      { progress := rfl
        descriptors := Function.update_of_ne hother _ _
        locks := fun path hlock => locks_finish s who other path hother hlock
        identity := fun _ _ => rfl }
  · exact untouched_refl other s

/-- The lock of a workspace survives `exec`: its descriptor is inherited. -/
theorem own_closeOnExec {run : OverlayRun} (h : Own sha256 base run who s) :
    Own sha256 base run who (s.closeOnExec who) := by
  unfold Storage.closeOnExec
  split
  · rename_i path hclosed
    have hnone : (s.progress who).workspace = none := by
      cases hw : (s.progress who).workspace with
      | none => rfl
      | some workspace =>
        have hkept := (h.locked workspace hw).2.2
        rw [hclosed] at hkept
        cases hkept
    have hunidentified : (s.progress who).identified ≠ true := by
      intro hi
      have hsome := (h.recorded hi).1
      rw [hnone] at hsome
      cases hsome
    refine
      { locked := fun workspace hw => ?_
        recorded := fun hi => absurd hi hunidentified
        mounted := h.mounted
        sources := h.sources }
    rw [show (s.progress who).workspace = some workspace from hw] at hnone
    cases hnone
  · exact h

theorem checked_exec :
    Checked sha256 base attributes runs who (fun _ => True) (call .exec) fun _ _ => True := by
  refine Machine.proves_perform _ (fun _ _ _ _ _ => trivial) ?_ ?_
  · intro s _ _
    exact guard_of_elsewhere _ (fun name hm => absurd hm List.not_mem_nil) _ s
  · intro choice s hinv _
    simp only [machine, perform]
    split
    · exact ⟨allowed_of_untouched hinv fun other => untouched_refl other s, trivial⟩
    · have hclosed : Machine.Allowed (discipline sha256 base attributes runs) who s
          (s.closeOnExec who) :=
        allowed_of_others hinv (fun other hother => untouched_closeOnExec other hother)
          (own_closeOnExec (hinv who))
      have hexecuted : Machine.Allowed (discipline sha256 base attributes runs) who
          (s.closeOnExec who) ((s.closeOnExec who).advance who fun progress =>
            { progress with executed := true }) :=
        allowed_advance hclosed.inv _ (fun _ => rfl) (fun _ => rfl)
          (hclosed.inv who).mounted (hclosed.inv who).sources
      refine ⟨⟨hexecuted.inv, fun other hother => ?_⟩, trivial⟩
      have hfirst := hclosed.rely other hother
      have hsecond := hexecuted.rely other hother
      exact
        { progress := hsecond.progress.trans hfirst.progress
          descriptors := hsecond.descriptors.trans hfirst.descriptors
          locks := fun path hl => hsecond.locks path (hfirst.locks path hl)
          identity := fun workspace hl =>
            (hsecond.identity workspace (hfirst.locks _ hl)).trans (hfirst.identity workspace hl) }

/-- A run of sandrun keeps to the discipline from its start to its end. -/
theorem checked_runOverlay :
    Checked sha256 base attributes runs who (At who Progress.none)
      (runOverlay sha256 base (runs who)) fun _ _ => True := by
  refine Machine.proves_bind _ _ checked_mountOverlayRootfs fun _ => ?_
  refine Machine.proves_pre _ (Machine.proves_bind _ _ checked_prepareDiskBase fun _ => ?_)
    fun _ _ _ => trivial
  refine Machine.proves_bind _ _ (checked_harmless _ rfl (fun _ _ _ _ => trivial)
    fun s _ _ => ?_) fun isolated => ?_
  · exact guard_of_elsewhere _ (fun name hm => absurd hm List.not_mem_nil) _ s
  · refine Machine.proves_bind _ _ (checked_require _ _) fun _ => ?_
    refine Machine.proves_pre _ (Machine.proves_bind _ _ checked_exec fun executed => ?_)
      fun _ _ _ => trivial
    exact Machine.proves_post _ (checked_require _ _) fun _ _ _ => trivial

/-! ### All runs together -/

/-- Runs that are about to start on an overlay base with these directories and files. -/
def startRuns (sha256 : Bytes → Bytes) (base : Position) (runs : ι → OverlayRun)
    (directories : Position → Option Attributes) (files : Position → Option Bytes) :
    System ι (Storage ι) Operation Answer RuntimeError Unit where
  shared := ⟨directories, files, fun _ => none, fun _ => none, fun _ => Progress.none⟩
  threads who := some (runOverlay sha256 base (runs who))

theorem checked_startRuns (directories : Position → Option Attributes)
    (files : Position → Option Bytes) :
    Machine.Checked (discipline sha256 base attributes runs)
      (startRuns sha256 base runs directories files) := by
  refine ⟨fun who => own_of_none rfl, fun who t ht => ?_⟩
  obtain rfl := Option.some.inj ht
  exact ⟨At who Progress.none, fun _ _ => True, lasting_at _, rfl, checked_runOverlay⟩

/-- No two disk directories of the runs get one digest by a collision. -/
def CollisionFree (sha256 : Bytes → Bytes) (run run' : OverlayRun) : Prop :=
  ∀ target ∈ run.diskMounts, ∀ target' ∈ run'.diskMounts,
    sha256 (diskMountIdentity run.overlayId run.lower target) =
        sha256 (diskMountIdentity run'.overlayId run'.lower target') →
      diskMountIdentity run.overlayId run.lower target =
        diskMountIdentity run'.overlayId run'.lower target'

omit [DecidableEq ι] in
/-- Runs of different workspaces keep their disk mounts in different directories. -/
theorem sources_disjoint {i j : ι} (hi : Own sha256 base (runs i) i s)
    (hj : Own sha256 base (runs j) j s)
    (hne : (runs i).workspace sha256 base ≠ (runs j).workspace sha256 base)
    (hfree : CollisionFree sha256 (runs i) (runs j)) :
    List.Disjoint (s.progress i).sources (s.progress j).sources := by
  intro source hsource hsource'
  obtain ⟨target, htarget, hpath⟩ := hi.sources source hsource
  obtain ⟨target', htarget', hpath'⟩ := hj.sources source hsource'
  have hhex := List.append_cancel_left (hpath.symm.trans hpath')
  have hdigest := hexLower_injective (List.singleton_inj.mp hhex)
  have hsame := diskMountIdentity_injective (runs i).id_length (runs j).id_length
    (runs i).lower_length (runs j).lower_length ((runs i).target_length target htarget)
    ((runs j).target_length target' htarget') (hfree target htarget target' htarget' hdigest)
  apply hne
  unfold OverlayRun.workspace
  rw [hsame.1, hsame.2.1]

omit [DecidableEq ι] in
theorem workspace_unique (h : ∀ who, Own sha256 base (runs who) who s) {i j : ι}
    {workspace : Position} (hi : (s.progress i).workspace = some workspace)
    (hj : (s.progress j).workspace = some workspace) : i = j := by
  have hlock := ((h i).locked workspace hi).2.1
  have hlock' := ((h j).locked workspace hj).2.1
  exact Option.some.inj (hlock.symm.trans hlock')

omit [DecidableEq ι] in
theorem workspaces_differ (h : ∀ who, Own sha256 base (runs who) who s) {i j : ι} (hij : i ≠ j)
    {layers layers' : Layers} (hi : (s.progress i).layers = some layers)
    (hj : (s.progress j).layers = some layers') :
    (runs i).workspace sha256 base ≠ (runs j).workspace sha256 base := by
  intro hsame
  have hown := ((h i).recorded ((h i).mounted layers hi).1).1
  have hown' := ((h j).recorded ((h j).mounted layers' hj).1).1
  rw [← hsame] at hown'
  exact hij (workspace_unique h hown hown')

theorem layers_differ {layers layers' : Layers} {name name' : Bytes}
    (h : layers.Within (base ++ [name])) (h' : layers'.Within (base ++ [name']))
    (hne : base ++ [name] ≠ base ++ [name']) :
    layers.upper ≠ layers'.upper ∧ layers.work ≠ layers'.work ∧
      layers.merged ≠ layers'.merged := by
  obtain ⟨hupper, hwork, child, hmerged⟩ := h
  obtain ⟨hupper', hwork', child', hmerged'⟩ := h'
  refine ⟨fun he => hne ?_, fun he => hne ?_, fun he => hne ?_⟩
  · rw [hupper, hupper'] at he
    exact List.append_cancel_right he
  · rw [hwork, hwork'] at he
    exact List.append_cancel_right he
  · rw [hmerged, hmerged'] at he
    have hparent := (List.append_inj' he rfl).1
    exact List.append_cancel_right hparent

/-- Whatever the runs on one overlay base do, in any order and wherever they end: a
workspace is past its lock in one live run at most; live runs that have mounted their
overlays share no layer and no disk directory; and a run works on an upper directory, or
has it mounted, only where the workspace is recorded for its own id and rootfs. -/
theorem exclusive_layers (sha256 : Bytes → Bytes) (base : Position)
    (attributes : Bytes → Attributes) (runs : ι → OverlayRun)
    (directories : Position → Option Attributes) (files : Position → Option Bytes)
    (moves : List (Move ι Choice)) :
    let system := (machine attributes).run (startRuns sha256 base runs directories files) moves
    let progress := system.shared.progress
    (∀ i j workspace, (progress i).workspace = some workspace →
      (progress j).workspace = some workspace → i = j) ∧
    (∀ i j layers layers', i ≠ j → (progress i).layers = some layers →
      (progress j).layers = some layers' →
      (layers.upper ≠ layers'.upper ∧ layers.work ≠ layers'.work ∧
        layers.merged ≠ layers'.merged) ∧
      (CollisionFree sha256 (runs i) (runs j) →
        List.Disjoint (progress i).sources (progress j).sources)) ∧
    ∀ i name overlayId lower, overlayId.length < 2 ^ 64 → lower.length < 2 ^ 64 →
      system.shared.files (identityOf (base ++ [name])) = some (overlayIdentity overlayId lower) →
      ((∃ o next, system.threads i = some (.op o next) ∧ upperOf base name ∈ o.positions) ∨
        ∃ layers, (progress i).layers = some layers ∧ layers.upper = upperOf base name) →
      overlayId = (runs i).overlayId ∧ lower = (runs i).lower := by
  intro system progress
  have hchecked : Machine.Checked (discipline sha256 base attributes runs)
      (startRuns sha256 base runs directories files) := checked_startRuns directories files
  have hown : ∀ who, Own sha256 base (runs who) who system.shared :=
    Machine.invariant_of_checked _ moves hchecked
  refine ⟨fun i j workspace => workspace_unique hown, ?_, ?_⟩
  · intro i j layers layers' hij hi hj
    have hne := workspaces_differ hown hij hi hj
    exact ⟨layers_differ ((hown i).mounted layers hi).2 ((hown j).mounted layers' hj).2 hne,
      sources_disjoint (hown i) (hown j) hne⟩
  · intro i name overlayId lower hid hlower hfile huse
    have hrecorded : system.shared.files (identityOf (base ++ [name])) = some (runs i).identity := by
      rcases huse with ⟨o, next, hthread, hm⟩ | ⟨layers, hlayers, hupper⟩
      · exact (Machine.guard_of_checked _ moves hchecked hthread name hm).2
      · obtain ⟨hidentified, hwithin, -⟩ := (hown i).mounted layers hlayers
        have hself := List.append_cancel_right (hupper.symm.trans hwithin)
        rw [hself]
        exact ((hown i).recorded hidentified).2
    exact overlayIdentity_injective hid (runs i).id_length hlower (runs i).lower_length
      (Option.some.inj (hfile.symm.trans hrecorded))

/-- Two runs on one base, told apart by their overlay ids. -/
def pairOfRuns : Bool → OverlayRun
  | false => ⟨lit "a", lit "/rootfs", [lit "/data"], by decide, by decide, by decide⟩
  | true => ⟨lit "b", lit "/rootfs", [lit "/data"], by decide, by decide, by decide⟩

/-- The SHA-256 digests of the identities of both runs and of their disk directories, and nothing
for other inputs. -/
def pairDigest (bytes : Bytes) : Bytes :=
  if bytes = overlayIdentity (lit "a") (lit "/rootfs") then
    [10, 22, 134, 16, 161, 167, 51, 95, 189, 62, 149, 69, 249, 85, 204, 248, 162, 54, 146, 235, 70,
      212, 93, 181, 130, 23, 214, 49, 101, 43, 165, 174]
  else if bytes = overlayIdentity (lit "b") (lit "/rootfs") then
    [126, 104, 165, 123, 59, 2, 190, 205, 206, 16, 112, 204, 46, 59, 224, 160, 231, 82, 0, 67, 85,
      189, 12, 173, 228, 224, 93, 149, 109, 188, 197, 222]
  else if bytes = diskMountIdentity (lit "a") (lit "/rootfs") (lit "/data") then
    [45, 32, 105, 242, 172, 235, 118, 99, 92, 152, 93, 108, 13, 143, 196, 100, 102, 7, 46, 229, 182,
      2, 122, 233, 200, 154, 222, 181, 80, 114, 169, 180]
  else if bytes = diskMountIdentity (lit "b") (lit "/rootfs") (lit "/data") then
    [102, 241, 155, 99, 156, 84, 120, 103, 1, 232, 38, 245, 97, 223, 169, 232, 87, 76, 178, 97, 180,
      3, 70, 223, 199, 38, 145, 209, 49, 183, 88, 186]
  else []

/-- This many moves of the first run, then of the second. -/
def pairMoves (first second : ℕ) : List (Move Bool Choice) :=
  List.replicate first (.act false ⟨false, 100, 0⟩) ++
    List.replicate second (.act true ⟨false, 100, 1⟩)

def afterPair (first second : ℕ) : System Bool (Storage Bool) Operation Answer RuntimeError Unit :=
  (machine fun _ => ⟨0, 0, 0o755⟩).run
    (startRuns pairDigest [lit "overlay"] pairOfRuns (fun _ => none) fun _ => none)
    (pairMoves first second)

/-- The directory name of a run in the pair. -/
def pairName (who : Bool) : Bytes := hexLower (pairDigest (pairOfRuns who).identity)

theorem exclusive_layers_pair :
    let progress := (afterPair 40 40).shared.progress
    (∃ layers layers', (progress false).layers = some layers ∧
      (progress true).layers = some layers' ∧ layers.upper ≠ layers'.upper ∧
      List.Disjoint (progress false).sources (progress true).sources) ∧
    (progress true).sources ≠ [] ∧ lit "a" = (pairOfRuns false).overlayId := by
  intro progress
  obtain ⟨-, hapart, hidentity⟩ := exclusive_layers pairDigest [lit "overlay"]
    (fun _ => ⟨0, 0, 0o755⟩) pairOfRuns (fun _ => none) (fun _ => none) (pairMoves 40 40)
  have hrun : (machine fun _ => ⟨0, 0, 0o755⟩).run
      (startRuns pairDigest [lit "overlay"] pairOfRuns (fun _ => none) fun _ => none)
      (pairMoves 40 40) = afterPair 40 40 := rfl
  rw [hrun] at hapart hidentity
  have hfirst : (progress false).layers.isSome := by decide +kernel
  have hsecond : (progress true).layers.isSome := by decide +kernel
  obtain ⟨layers, hlayers⟩ := Option.isSome_iff_exists.mp hfirst
  obtain ⟨layers', hlayers'⟩ := Option.isSome_iff_exists.mp hsecond
  have hupper : (progress false).layers.map (fun layers => layers.upper) =
      some (upperOf [lit "overlay"] (pairName false)) := by decide +kernel
  rw [hlayers] at hupper
  obtain ⟨hdiffer, hsources⟩ := hapart false true layers layers' (by decide) hlayers hlayers'
  have hfree : CollisionFree pairDigest (pairOfRuns false) (pairOfRuns true) := by
    unfold CollisionFree
    decide +kernel
  refine ⟨⟨layers, layers', hlayers, hlayers', hdiffer.1, hsources hfree⟩, by decide +kernel, ?_⟩
  exact (hidentity false (pairName false) (lit "a") (lit "/rootfs") (by decide) (by decide)
    (by decide +kernel) (Or.inr ⟨layers, hlayers, Option.some.inj hupper⟩)).1

end Sandcamp.Sandrun
