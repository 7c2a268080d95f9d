import Mathlib.Data.List.Infix
import Sandcamp.Sandrun.Attempts
import Sandcamp.Sandrun.Workspaces

/-!
# Recording the identity of a workspace (linux.rs:376-453)

A first attempt creates the identity file and writes it. What a later attempt makes of
the file depends only on whether it is absent, complete or cut off in between.
-/

namespace Sandcamp.Sandrun
open Foundations Machine

variable {ι : Type} {sha256 : Bytes → Bytes} {base workspace : Position}
  {attributes : Bytes → Attributes} {who : ι} {run : OverlayRun} {identity : Bytes}
  {s : Storage ι}

/-- The refusal of a workspace that is recorded for another identity. -/
def mismatch (workspace : Position) : RuntimeError :=
  failedOperation "overlay_identity_mismatch" (identityOf workspace)

/-- No part of the path to the workspace is a file. -/
def Clear (workspace : Position) (s : Storage ι) : Prop := ∀ p, p <+: workspace → s.files p = none

/-- A run has the workspace to itself, or nobody has it. -/
def Reserved (workspace : Position) (who : ι) (s : Storage ι) : Prop :=
  s.locks (lockOf workspace) = none ∨ s.locks (lockOf workspace) = some who

/-- The identity is recorded as far as `written` goes. -/
structure Partly (workspace : Position) (who : ι) (written : Option Bytes) (s : Storage ι) : Prop
    where
  clear : Clear workspace s
  reserved : Reserved workspace who s
  recorded : s.files (identityOf workspace) = written

/-- The identity file is absent or begins the identity. -/
def Begun (workspace : Position) (identity : Bytes) (who : ι) (s : Storage ι) : Prop :=
  ∃ written, Partly workspace who written s ∧ ∀ bytes, written = some bytes → bytes <+: identity

/-- Before the lock a run knows nothing; past it, it has begun to record its identity. -/
def Begins (workspace : Position) (identity : Bytes) (who : ι) (s : Storage ι) : Prop :=
  (s.progress who).workspace ≠ none → Begun workspace identity who s

/-- Before the lock, with no identity on the disk. -/
structure Outside (workspace : Position) (who : ι) (s : Storage ι) : Prop where
  progress : (s.progress who).workspace = none
  recorded : s.files (identityOf workspace) = none

theorem Outside.begins (h : Outside workspace who s) : Begins workspace identity who s :=
  fun hne => absurd h.progress hne

theorem Begun.begins (h : Begun workspace identity who s) : Begins workspace identity who s :=
  fun _ => h

theorem begun_absent (h : Partly workspace who none s) : Begun workspace identity who s :=
  ⟨none, h, by simp⟩

theorem begun_from {bytes : Bytes} (h : Partly workspace who (some bytes) s)
    (hbytes : bytes <+: identity) : Begun workspace identity who s := by
  refine ⟨some bytes, h, fun other hother => ?_⟩
  obtain rfl := Option.some.inj hother
  exact hbytes

theorem lockOf_ne_prefix {p : Position} (h : p <+: workspace) : p ≠ lockOf workspace := by
  have hlength := h.length_le
  rintro rfl
  simp [lockOf] at hlength

theorem identityOf_ne_prefix {p : Position} (h : p <+: workspace) : p ≠ identityOf workspace := by
  have hlength := h.length_le
  rintro rfl
  simp [identityOf] at hlength

/-- A file below the workspace is not on the path to it. -/
theorem Clear.setFile (h : Clear workspace s) (path : Position) (contents : Bytes)
    (hpath : ∀ p, p <+: workspace → p ≠ path) : Clear workspace (s.setFile path contents) := by
  intro p hp
  show Function.update s.files path (some contents) p = none
  rw [Function.update_of_ne (hpath p hp)]
  exact h p hp

theorem Clear.any (h : Clear workspace s) {path : Position} (hpath : path <+: workspace) :
    path.inits.any (fun p => (s.files p).isSome) = false := by
  rw [List.any_eq_false]
  intro p hp
  rw [h p (((List.mem_inits p path).mp hp).trans hpath)]
  decide

theorem clear_of_any (h : workspace.inits.any (fun p => (s.files p).isSome) = false) :
    Clear workspace s := by
  intro p hp
  rw [List.any_eq_false] at h
  have hfile := h p ((List.mem_inits p workspace).mpr hp)
  exact Option.not_isSome_iff_eq_none.mp hfile

variable [DecidableEq ι]

/-! ### The rest of a run leaves the identity alone -/

/-- Operations after which the files and the lock are what they were. -/
def Operation.settled : Operation → Bool
  | .openLock _ | .flock _ | .createNew _ | .write .. => false
  | _ => true

/-- Breaks of a run that does not open a file and is not refused. -/
def Settled (workspace : Position) : Break Operation RuntimeError → Prop
  | .failed error => error ≠ mismatch workspace
  | .cutOff o => o.settled = true

theorem failed_ne_mismatch {operation : String} (path : Position)
    (h : operation ≠ "overlay_identity_mismatch") :
    failedOperation operation path ≠ mismatch workspace := by
  intro he
  injection he with hname _
  exact h ((lit_inj _ _).mp hname)

theorem reserved_unlock (h : Reserved workspace who s) : Reserved workspace who (s.unlock who) := by
  show (if _ then _ else _) = none ∨ (if _ then _ else _) = some who
  split
  · exact Or.inl rfl
  · exact h

theorem free_of_reserved (h : Reserved workspace who s) :
    (s.finish who).locks (lockOf workspace) = none := by
  show (if s.locks (lockOf workspace) = some who then none else s.locks (lockOf workspace)) = none
  split
  · rfl
  · rename_i hne
    exact h.resolve_right hne

theorem partly_settled {o : Operation} (h : o.settled = true) (choice : Choice) (s : Storage ι)
    {written : Option Bytes} (hs : Partly workspace who written s) :
    Partly workspace who written (perform attributes who o choice s).2 := by
  have heffect := effect_perform attributes who o choice s
  generalize (perform attributes who o choice s).2 = s' at heffect ⊢
  have hsame : Partly workspace who written s := hs
  obtain ⟨hclear, hreserved, hrecorded⟩ := hs
  cases heffect with
  | nothing => exact hsame
  | openLock | flock | createNew | write => cases h
  | exec =>
    have hclosed : Partly workspace who written (s.closeOnExec who) := by
      unfold Storage.closeOnExec
      split
      · exact ⟨hclear, reserved_unlock hreserved, hrecorded⟩
      · exact hsame
    exact ⟨hclosed.clear, hclosed.reserved, hclosed.recorded⟩
  | mkdirAll | mkdir | chown | chmod | inheritLock | mountOverlay | note =>
    exact ⟨hclear, hreserved, hrecorded⟩

theorem partly_of_settled {written : Option Bytes} (o : Operation)
    (h : Settled workspace (.cutOff o)) (choice : Choice) (s : Storage ι)
    (hs : Partly workspace who written s) :
    Partly workspace who written ((machine attributes).perform who o choice s).2 :=
  partly_settled h choice s hs

theorem settled_layOut (path : Position) : (layOut path).Within (Settled workspace) := by
  apply within_layOut
  · rfl
  · exact fun _ _ => rfl
  · exact fun _ _ => rfl
  · rfl
  · exact fun _ => rfl
  · exact fun path => failed_ne_mismatch path (by decide)
  · exact fun path => failed_ne_mismatch path (by decide)

theorem settled_mountLayers (lower : Bytes) (layers : Layers) :
    (mountLayers lower layers).Within (Settled workspace) := by
  have hcall : ∀ o : Operation, o.settled = true → (call o).Within (Settled workspace) :=
    fun o ho => Thread.within_perform o ho
  have hcopy : (copyRootMetadata layers.upper lower).Within (Settled workspace) := by
    apply Thread.within_bind _ _ (hcall _ rfl)
    intro metadata
    cases metadata with
    | none =>
      intro he
      injection he with hname _
      exact absurd ((lit_inj _ _).mp hname) (by decide)
    | some metadata =>
      apply Thread.within_bind _ _ (hcall _ rfl)
      intro owned
      apply Thread.within_bind _ _ (within_require _ _ (failed_ne_mismatch _ (by decide)))
      intro _
      apply Thread.within_bind _ _ (hcall _ rfl)
      intro changed
      exact within_require _ _ (failed_ne_mismatch _ (by decide))
  have hupper : (ensureOverlayUpperDirectory layers.upper lower).Within (Settled workspace) := by
    apply Thread.within_bind _ _ (hcall _ rfl)
    intro creation
    apply Thread.within_bind _ _ (within_require _ _ (failed_ne_mismatch _ (by decide)))
    intro _
    apply Thread.within_bind _ _ (hcall _ rfl)
    intro metadata
    apply Thread.within_bind _ _ (within_require _ _ (failed_ne_mismatch _ (by decide)))
    intro _
    split
    · exact hcopy
    · trivial
  apply Thread.within_bind _ _ hupper
  intro _
  apply Thread.within_bind _ _ (hcall _ rfl)
  intro mounted
  apply Thread.within_bind _ _ (within_require _ _ (failed_ne_mismatch _ (by decide)))
  intro _
  trivial

theorem settled_finishOverlay (run : OverlayRun) :
    (finishOverlay sha256 base run).Within (Settled workspace) := by
  apply within_finishOverlay
  · exact fun _ _ => rfl
  · exact fun _ => rfl
  · exact fun _ => rfl
  · rfl
  · rfl
  · intro operation hoperation path
    apply failed_ne_mismatch
    rintro rfl
    simp at hoperation
  · intro operation _ he
    injection he with _ hpath
    cases hpath

/-! ### The first attempt -/

section First

/-- Wherever the first attempt ends, it has begun to record its identity or is before the
lock. -/
abbrev Beginning (workspace : Position) (identity : Bytes) (who : ι) :
    Break Operation RuntimeError → Storage ι → Prop :=
  fun _ s => Begins workspace identity who s

theorem first_ensurePrivateDirectory (path : Position) (operation : String) :
    Survives (machine attributes) who (Outside workspace who)
      (ensurePrivateDirectory path operation)
      (fun _ s => Outside workspace who s ∧ Clear path s)
      (Beginning workspace identity who) := by
  apply survives_bind (Q := fun made s => Outside workspace who s ∧ (made = true → Clear path s))
  · apply survives_perform
    · exact fun s h => h.begins
    · intro choice s h
      simp only [machine, perform]
      split
      · exact ⟨h, by simp⟩
      · rename_i hmade
        rw [not_or] at hmade
        exact ⟨⟨h.progress, h.recorded⟩, fun _ => clear_of_any (Bool.eq_false_iff.mpr hmade.2)⟩
  · intro made
    apply survives_bind _ _ (survives_require _ _ fun s _ h => h.1.begins)
    intro _
    apply survives_bind (Q := fun _ s => Outside workspace who s ∧ Clear path s)
    · apply survives_perform
      · exact fun s h => h.2.1.begins
      · exact fun choice s h => ⟨h.2.1, h.2.2 h.1⟩
    · intro metadata
      exact survives_require_last _ _ (fun s _ h => h.1.begins) fun s _ h => h

theorem first_acquireOverlayLock :
    Survives (machine attributes) who
      (fun s => Outside workspace who s ∧ Clear workspace s)
      (acquireOverlayLock (lockOf workspace))
      (fun _ s => Outside workspace who s ∧ Partly workspace who none s)
      (Beginning workspace identity who) := by
  apply survives_bind (Q := fun _ s => Outside workspace who s ∧ Clear workspace s)
  · apply survives_perform
    · exact fun s h => h.1.begins
    · intro choice s h
      simp only [machine, perform]
      split
      · exact h
      · refine ⟨⟨h.1.progress, ?_⟩, h.2.setFile _ _ fun p hp => lockOf_ne_prefix hp⟩
        exact (Function.update_of_ne (identity_ne_lock _ _) _ _).trans h.1.recorded
  · intro opened
    apply survives_bind _ _ (survives_require _ _ fun s _ h => h.1.begins)
    intro _
    apply survives_bind (Q := fun locked s => (Outside workspace who s ∧ Clear workspace s) ∧
      (locked = true → Reserved workspace who s))
    · apply survives_perform
      · exact fun s h => h.2.1.begins
      · intro choice s h
        simp only [machine, perform]
        split
        · exact ⟨h.2, by simp⟩
        · split
          · rename_i holder hlock
            refine ⟨h.2, fun hself => Or.inr ?_⟩
            rw [hlock, of_decide_eq_true hself]
          · exact ⟨⟨⟨h.2.1.progress, h.2.1.recorded⟩, h.2.2⟩,
              fun _ => Or.inr (Function.update_self _ _ _)⟩
    · intro locked
      apply survives_bind _ _ (survives_require _ _ fun s _ h => h.1.1.begins)
      intro _
      apply survives_bind (Q := fun _ s => Outside workspace who s ∧ Partly workspace who none s)
      · apply survives_perform
        · exact fun s h => h.2.1.1.begins
        · intro choice s h
          obtain ⟨hlocked, ⟨houtside, hclear⟩, hreserved⟩ := h
          have hpartly : Partly workspace who none s :=
            ⟨hclear, hreserved hlocked, houtside.recorded⟩
          simp only [machine, perform]
          split
          · exact ⟨houtside, hpartly⟩
          · exact ⟨⟨houtside.progress, houtside.recorded⟩,
              hpartly.clear, hpartly.reserved, hpartly.recorded⟩
      · intro inherited
        exact survives_require_last _ _ (fun s _ h => h.1.begins) fun s _ h => h

/-- Every write leaves a longer beginning of the identity. -/
theorem first_writeAll (fuel : ℕ) (written rest : Bytes) (hidentity : written ++ rest = identity)
    (hfuel : rest.length ≤ fuel) :
    Survives (machine attributes) who (Partly workspace who (some written))
      (writeAll (identityOf workspace) fuel rest)
      (fun done s => Begun workspace identity who s ∧
        (done = true → Partly workspace who (some identity) s))
      (fun _ s => Begun workspace identity who s) := by
  have hbegun : ∀ s, Partly workspace who (some written) s → Begun workspace identity who s :=
    fun s h => begun_from h ⟨rest, hidentity⟩
  induction fuel generalizing written rest with
  | zero =>
    obtain rfl := List.length_eq_zero_iff.mp (Nat.le_zero.mp hfuel)
    rw [List.append_nil] at hidentity
    subst hidentity
    exact survives_pure _ fun s h => ⟨hbegun s h, fun _ => h⟩
  | succ fuel ih =>
    rw [writeAll]
    split
    · rename_i hnil
      rw [hnil, List.append_nil] at hidentity
      subst hidentity
      exact survives_pure _ fun s h => ⟨hbegun s h, fun _ => h⟩
    · rename_i hne
      have hpos := List.length_pos_iff.mpr hne
      apply survives_bind (Q := fun answer s => answer.elim
        (Partly workspace who (some written) s)
        fun count => 0 < count ∧ Partly workspace who (some (written ++ rest.take count)) s)
      · apply survives_perform
        · exact hbegun
        · intro choice s h
          by_cases hfails : choice.fails = true
          · simp only [machine, perform, if_pos hfails]
            exact h
          · simp only [machine, perform, if_neg hfails]
            refine ⟨by omega, h.clear.setFile _ _ fun p hp => identityOf_ne_prefix hp,
              h.reserved, ?_⟩
            rw [h.recorded]
            exact Function.update_self _ _ _
      · intro answer
        cases answer with
        | none => exact survives_pure _ fun s h => ⟨hbegun s h, by simp⟩
        | some count =>
          by_cases hcount : 0 < count
          · refine survives_pre _ (ih (written ++ rest.take count) (rest.drop count) ?_ ?_ ?_)
              fun s h => h.2
            · rw [List.append_assoc, List.take_append_drop]
              exact hidentity
            · rw [List.length_drop]
              omega
            · intro s h
              refine begun_from h ⟨rest.drop count, ?_⟩
              rw [List.append_assoc, List.take_append_drop]
              exact hidentity
          · exact survives_false _ fun s h => hcount h.1

theorem first_ensureIdentity :
    Survives (machine attributes) who (Partly workspace who none)
      (ensureIdentity (identityOf workspace) identity)
      (fun _ => Partly workspace who (some identity))
      (fun _ s => Begun workspace identity who s) := by
  apply survives_bind (Q := fun creation s => match creation with
    | .created => Partly workspace who (some []) s
    | .alreadyExists => False
    | .failed => Partly workspace who none s)
  · apply survives_perform
    · exact fun s h => begun_absent h
    · intro choice s h
      have habsent : ¬(s.files (identityOf workspace)).isSome = true := by
        rw [h.recorded]
        decide
      by_cases hfails : choice.fails = true
      · simp only [machine, perform, if_pos hfails]
        exact h
      · simp only [machine, perform, if_neg hfails, if_neg habsent]
        exact ⟨h.clear.setFile _ _ fun p hp => identityOf_ne_prefix hp, h.reserved,
          Function.update_self _ _ _⟩
  · intro creation
    cases creation with
    | created =>
      apply survives_bind _ _ (first_writeAll identity.length [] identity rfl (Nat.le_refl _))
      intro done
      exact survives_require_last _ _ (fun s _ h => h.1) fun s hdone h => h.2 hdone
    | alreadyExists => exact survives_false _ fun s h => h
    | failed => exact survives_fail _ fun s h => begun_absent h

theorem first_stableOverlayPaths (run : OverlayRun) :
    Survives (machine attributes) who (Outside (run.workspace sha256 base) who)
      (stableOverlayPaths sha256 base run.lower run.overlayId)
      (fun _ => Partly (run.workspace sha256 base) who (some run.identity))
      (Beginning (run.workspace sha256 base) run.identity who) := by
  rw [stableOverlayPaths_eq]
  apply survives_bind _ _ (first_ensurePrivateDirectory _ _)
  intro _
  apply survives_bind _ _ first_acquireOverlayLock
  intro _
  apply survives_bind (Q := fun _ => Partly (run.workspace sha256 base) who none)
  · apply survives_perform
    · exact fun s h => h.1.begins
    · exact fun choice s h => ⟨h.2.clear, h.2.reserved, h.2.recorded⟩
  · intro _
    apply survives_bind _ _ (survives_post _ first_ensureIdentity (fun _ _ h => h)
      fun _ _ h => h.begins)
    intro _
    apply survives_post _ (survives_within _ (settled_layOut _) partly_of_settled)
    · exact fun _ s h => h
    · exact fun _ s h => (begun_from h.2 (List.prefix_refl _)).begins

/-- Where an attempt that finds no identity ends past its lock, it has begun to record it. -/
theorem first_runOverlay (run : OverlayRun) :
    Survives (machine attributes) who (Outside (run.workspace sha256 base) who)
      (runOverlay sha256 base run)
      (fun _ s => Begins (run.workspace sha256 base) run.identity who s)
      (Beginning (run.workspace sha256 base) run.identity who) := by
  have hrecorded : ∀ s, Partly (run.workspace sha256 base) who (some run.identity) s →
      Begins (run.workspace sha256 base) run.identity who s :=
    fun s h => (begun_from h (List.prefix_refl _)).begins
  rw [runOverlay_eq]
  apply survives_bind (Q := fun _ => Partly (run.workspace sha256 base) who (some run.identity))
  · rw [mountOverlayRootfs_eq]
    apply survives_bind _ _ (survives_require _ _ fun s _ h => h.begins)
    intro _
    apply survives_bind _ _ (survives_pre _ (first_ensurePrivateDirectory _ _) fun s h => h.2)
    intro _
    apply survives_bind _ _ (survives_pre _ (first_stableOverlayPaths run) fun s h => h.1)
    intro layers
    apply survives_post _ (survives_within _ (settled_mountLayers _ _) partly_of_settled)
    · exact fun _ s h => h
    · exact fun _ s h => hrecorded s h.2
  · intro layers
    apply survives_post _ (survives_within _ (settled_finishOverlay _) partly_of_settled)
    · exact fun _ s h => hrecorded s h
    · exact fun _ s h => hrecorded s h.2

end First

/-! ### A later attempt up to the identity -/

/-- Operations that neither touch the identity file nor say that it is there. -/
def Operation.Blind (workspace : Position) : Operation → Prop
  | .openLock path | .createNew path | .write path _ => path ≠ identityOf workspace
  | .note .identified => False
  | _ => True

/-- Breaks of a run that has not looked at its identity yet. -/
def Entering (workspace : Position) : Break Operation RuntimeError → Prop
  | .failed error => error ≠ mismatch workspace
  | .cutOff o => o.Blind workspace

theorem blind_perform (attributes : Bytes → Attributes) (who : ι) (o : Operation)
    (h : o.Blind workspace) (choice : Choice) (s : Storage ι) :
    (perform attributes who o choice s).2.files (identityOf workspace) =
        s.files (identityOf workspace) ∧
      ((perform attributes who o choice s).2.progress who).identified =
        (s.progress who).identified := by
  have heffect := effect_perform attributes who o choice s
  generalize (perform attributes who o choice s).2 = s' at heffect ⊢
  cases heffect with
  | openLock path contents => exact ⟨Function.update_of_ne (Ne.symm h) _ _, rfl⟩
  | createNew path => exact ⟨Function.update_of_ne (Ne.symm h) _ _, rfl⟩
  | write path bytes contents => exact ⟨Function.update_of_ne (Ne.symm h) _ _, rfl⟩
  | note note =>
    rw [advance_self]
    cases note with
    | identified => exact h.elim
    | acquired workspace => exact ⟨rfl, rfl⟩
    | source source => exact ⟨rfl, rfl⟩
  | mountOverlay lower layers =>
    rw [advance_self]
    exact ⟨rfl, rfl⟩
  | exec =>
    rw [advance_self, Storage.progress_closeOnExec]
    exact ⟨congrFun (Storage.files_closeOnExec s who) _, rfl⟩
  | nothing | mkdirAll | mkdir | chown | chmod | flock | inheritLock => exact ⟨rfl, rfl⟩

theorem entering_ensurePrivateDirectory (path : Position) {operation : String}
    (h : operation ≠ "overlay_identity_mismatch") :
    (ensurePrivateDirectory path operation).Within (Entering workspace) :=
  within_ensurePrivateDirectory path operation trivial trivial (failed_ne_mismatch path h)

theorem entering_acquireOverlayLock (path : Position) :
    (acquireOverlayLock (lockOf path)).Within (Entering workspace) := by
  apply within_acquireOverlayLock
  · exact (identity_ne_lock _ _).symm
  · trivial
  · trivial
  · intro operation hoperation
    apply failed_ne_mismatch
    rintro rfl
    simp at hoperation

/-- A run that comes to its identity in `Q`, if `P` does not depend on what it did before. -/
theorem survives_to_identity {P : Storage ι → Prop} {Q : Unit → Storage ι → Prop}
    {C : Break Operation RuntimeError → Storage ι → Prop} (run : OverlayRun)
    (hstep : ∀ o : Operation, o.Blind (run.workspace sha256 base) → ∀ choice s, P s →
      P (perform attributes who o choice s).2)
    (hC : ∀ e s, Entering (run.workspace sha256 base) e → P s → C e s)
    (hidentity : Survives (machine attributes) who P
      (ensureIdentity (identityOf (run.workspace sha256 base)) run.identity) Q C)
    (hlayOut : Survives (machine attributes) who (Q ())
      (layOut (run.workspace sha256 base)) (fun _ => Q ()) C)
    (hmount : ∀ layers, Survives (machine attributes) who (Q ())
      (mountLayers run.lower layers) (fun _ => Q ()) C)
    (hfinish : Survives (machine attributes) who (Q ()) (finishOverlay sha256 base run)
      (fun _ => Q ()) C) :
    Survives (machine attributes) who P (runOverlay sha256 base run) (fun _ => Q ()) C := by
  have hblind : ∀ {α : Type} (t : Routine α),
      t.Within (Entering (run.workspace sha256 base)) →
      Survives (machine attributes) who P t (fun _ => P) C := fun t ht =>
    survives_post t (survives_within t ht hstep) (fun _ _ h => h) fun e s h => hC e s h.1 h.2
  have hnote : (call (.note (.acquired (run.workspace sha256 base)))).Within
      (Entering (run.workspace sha256 base)) := ⟨trivial, fun _ => trivial⟩
  rw [runOverlay_eq]
  apply survives_bind (Q := fun _ => Q ())
  · rw [mountOverlayRootfs_eq]
    apply survives_bind _ _ (hblind _ (within_require _ _ ?_))
    · intro _
      apply survives_bind _ _ (hblind _ (entering_ensurePrivateDirectory _ (by decide)))
      intro _
      apply survives_bind (Q := fun _ => Q ())
      · rw [stableOverlayPaths_eq]
        apply survives_bind _ _ (hblind _ (entering_ensurePrivateDirectory _ (by decide)))
        intro _
        apply survives_bind _ _ (hblind _ (entering_acquireOverlayLock _))
        intro _
        apply survives_bind _ _ (hblind _ hnote)
        intro _
        exact survives_bind _ _ hidentity fun _ => hlayOut
      · exact hmount
    · intro he
      cases he
  · exact fun _ => hfinish

/-- The identity file holds `written`, and the run has not got past it. -/
structure Stopped (workspace : Position) (written : Bytes) (who : ι) (s : Storage ι) : Prop where
  recorded : s.files (identityOf workspace) = some written
  unidentified : (s.progress who).identified = false

/-- No run gets past an identity file with other contents than its identity. -/
theorem stopped_runOverlay (run : OverlayRun) {written : Bytes} (hne : written ≠ run.identity) :
    Survives (machine attributes) who (Stopped (run.workspace sha256 base) written who)
      (runOverlay sha256 base run) (fun _ _ => False)
      (fun _ => Stopped (run.workspace sha256 base) written who) := by
  apply survives_to_identity (Q := fun _ _ => False) run
  · intro o ho choice s h
    have hsame := blind_perform attributes who o ho choice s
    exact ⟨hsame.1.trans h.recorded, hsame.2.trans h.unidentified⟩
  · exact fun _ _ _ h => h
  · apply survives_bind (Q := fun creation s => creation ≠ .created ∧
      Stopped (run.workspace sha256 base) written who s)
    · apply survives_perform
      · exact fun _ h => h
      · intro choice s h
        have hpresent : (s.files (identityOf (run.workspace sha256 base))).isSome = true := by
          rw [h.recorded]
          rfl
        by_cases hfails : choice.fails = true
        · simp only [machine, perform, if_pos hfails]
          exact ⟨by simp, h⟩
        · simp only [machine, perform, if_neg hfails, if_pos hpresent]
          exact ⟨by simp, h⟩
    · intro creation
      cases creation with
      | created => exact survives_false _ fun _ h => h.1 rfl
      | failed => exact survives_fail _ fun _ h => h.2
      | alreadyExists =>
        apply survives_bind (Q := fun answer s => (answer = none ∨ answer = some written) ∧
          Stopped (run.workspace sha256 base) written who s)
        · apply survives_perform
          · exact fun _ h => h.2
          · intro choice s h
            by_cases hfails : choice.fails = true
            · simp only [machine, perform, if_pos hfails]
              exact ⟨Or.inl trivial, h.2⟩
            · simp only [machine, perform, if_neg hfails]
              exact ⟨Or.inr h.2.recorded, h.2⟩
        · intro answer
          cases answer with
          | none => exact survives_fail _ fun _ h => h.2
          | some actual =>
            apply survives_require_last
            · exact fun _ _ h => h.2
            · intro s hactual h
              rcases h.1 with hnone | hwritten
              · cases hnone
              · exact hne ((Option.some.inj hwritten).symm.trans (of_decide_eq_true hactual))
  · exact survives_false _ fun _ h => h
  · exact fun _ => survives_false _ fun _ h => h
  · exact survives_false _ fun _ h => h

/-! ### An identity that is absent or complete -/

/-- There is no identity file, or it holds the whole identity. -/
def Whole (workspace : Position) (identity : Bytes) (s : Storage ι) : Prop :=
  s.files (identityOf workspace) = none ∨ s.files (identityOf workspace) = some identity

/-- The break is not the refusal. -/
def Admitted (workspace : Position) (e : Break Operation RuntimeError) : Prop :=
  e ≠ .failed (mismatch workspace)

theorem admitted_cutOff (o : Operation) : Admitted workspace (.cutOff o) := by
  intro h
  cases h

theorem admitted_error {error : RuntimeError} (h : error ≠ mismatch workspace) :
    Admitted workspace (.failed error) := by
  intro he
  injection he with herror
  exact h herror

theorem admitted_entering {e : Break Operation RuntimeError} (h : Entering workspace e) :
    Admitted workspace e := by
  cases e with
  | failed error => exact admitted_error h
  | cutOff o => exact admitted_cutOff o

theorem admitted_settled {e : Break Operation RuntimeError} (h : Settled workspace e) :
    Admitted workspace e := by
  cases e with
  | failed error => exact admitted_error h
  | cutOff o => exact admitted_cutOff o

theorem within_writeAll {p : Break Operation RuntimeError → Prop} (path : Position) (fuel : ℕ)
    (bytes : Bytes) (h : ∀ bytes, p (.cutOff (.write path bytes))) :
    (writeAll path fuel bytes).Within p := by
  induction fuel generalizing bytes with
  | zero => trivial
  | succ fuel ih =>
    rw [writeAll]
    split
    · trivial
    · apply Thread.within_bind _ _ (Thread.within_perform _ (h bytes))
      intro answer
      cases answer with
      | none => trivial
      | some count => exact ih _

/-- The refusal never meets an identity that is absent or complete. -/
theorem admitted_runOverlay (run : OverlayRun) :
    Survives (machine attributes) who (Whole (run.workspace sha256 base) run.identity)
      (runOverlay sha256 base run) (fun _ _ => True)
      (fun e _ => Admitted (run.workspace sha256 base) e) := by
  have hadmitted : ∀ {α : Type} (t : Routine α), t.Within (Admitted (run.workspace sha256 base)) →
      Survives (machine attributes) who (fun _ => True) t (fun _ _ => True)
        (fun e _ => Admitted (run.workspace sha256 base) e) := fun t ht =>
    survives_post t (survives_within t ht fun _ _ _ _ _ => trivial) (fun _ _ h => h)
      fun _ _ h => h.1
  have hsettled : ∀ {α : Type} (t : Routine α), t.Within (Settled (run.workspace sha256 base)) →
      Survives (machine attributes) who (fun _ => True) t (fun _ _ => True)
        (fun e _ => Admitted (run.workspace sha256 base) e) := fun t ht =>
    hadmitted t (ht.mono fun _ => admitted_settled)
  apply survives_to_identity (Q := fun _ _ => True) run
  · intro o ho choice s h
    have hsame := blind_perform attributes who o ho choice s
    rw [Whole, hsame.1]
    exact h
  · exact fun e _ h _ => admitted_entering h
  · apply survives_bind (Q := fun creation s => creation = .alreadyExists →
      s.files (identityOf (run.workspace sha256 base)) = some run.identity)
    · apply survives_perform
      · exact fun _ _ => admitted_cutOff _
      · intro choice s h
        by_cases hfails : choice.fails = true
        · simp only [machine, perform, if_pos hfails]
          simp
        · rcases h with hnone | hsome
          · simp only [machine, perform, if_neg hfails, hnone]
            simp
          · simp only [machine, perform, if_neg hfails, hsome]
            exact fun _ => hsome
    · intro creation
      cases creation with
      | created =>
        apply survives_bind (Q := fun _ _ => True)
        · exact survives_pre _ (hadmitted _ (within_writeAll _ _ _ fun _ => admitted_cutOff _))
            fun _ _ => trivial
        · intro done
          exact survives_require_last _ _
            (fun _ _ _ => admitted_error (failed_ne_mismatch _ (by decide))) fun _ _ _ => trivial
      | failed =>
        exact survives_fail _ fun _ _ => admitted_error (failed_ne_mismatch _ (by decide))
      | alreadyExists =>
        apply survives_bind (Q := fun answer _ => answer = none ∨ answer = some run.identity)
        · apply survives_perform
          · exact fun _ _ => admitted_cutOff _
          · intro choice s h
            by_cases hfails : choice.fails = true
            · simp only [machine, perform, if_pos hfails]
              exact Or.inl trivial
            · simp only [machine, perform, if_neg hfails]
              exact Or.inr (h rfl)
        · intro answer
          cases answer with
          | none =>
            exact survives_fail _ fun _ _ => admitted_error (failed_ne_mismatch _ (by decide))
          | some actual =>
            by_cases hactual : actual = run.identity
            · show Survives _ _ _ (require (decide (actual = run.identity)) _) _ _
              unfold require
              rw [if_pos (decide_eq_true hactual)]
              exact survives_pure _ fun _ _ => trivial
            · apply survives_false
              intro s h
              rcases h with hnone | hsome
              · cases hnone
              · exact hactual (Option.some.inj hsome)
  · exact hsettled _ (settled_layOut _)
  · exact fun layers => hsettled _ (settled_mountLayers _ _)
  · exact hsettled _ (settled_finishOverlay _)

/-- The system call does not fail. -/
def Fine (choice : Choice) : Prop := choice.fails = false

theorem Fine.not {choice : Choice} (h : Fine choice) : ¬choice.fails = true := by
  rw [h]
  decide

theorem completes_ensurePrivateDirectory (path : Position) (operation : String) (s : Storage ι)
    (h : Clear path s) :
    Completes (machine attributes) who Fine (ensurePrivateDirectory path operation) s
      (fun _ t => t.files = s.files ∧ t.locks = s.locks) := by
  have hany := h.any (List.prefix_refl path)
  apply completes_bind (Q := fun made t => made = true ∧ (t.directories path).isSome = true ∧
    t.files = s.files ∧ t.locks = s.locks)
  · apply completes_perform
    intro choice hfine
    have hmade : ¬(choice.fails = true ∨ path.inits.any (fun p => (s.files p).isSome) = true) := by
      rw [hany]
      rintro (hfails | hfile)
      · exact hfine.not hfails
      · cases hfile
    simp only [machine, perform, if_neg hmade]
    refine ⟨trivial, ?_, trivial, trivial⟩
    cases s.directories path with
    | none =>
      rw [if_pos ⟨List.prefix_refl path, rfl⟩]
      rfl
    | some old =>
      rw [if_neg fun h => Option.some_ne_none _ h.2]
      rfl
  · rintro made t ⟨hmade, hdirectory, hsame⟩
    apply completes_bind (Q := fun _ u => u = t) _ _ _ (completes_require _ _ _ hmade rfl)
    rintro _ u rfl
    apply completes_bind (Q := fun metadata v => metadata.isSome = true ∧ v = u)
    · apply completes_perform
      intro choice hfine
      simp only [machine, perform, if_neg hfine.not]
      exact ⟨hdirectory, trivial⟩
    · rintro metadata v ⟨hmetadata, rfl⟩
      exact completes_require _ _ _ hmetadata hsame

theorem completes_acquireOverlayLock (workspace : Position) (s : Storage ι)
    (h : s.locks (lockOf workspace) = none) :
    Completes (machine attributes) who Fine (acquireOverlayLock (lockOf workspace)) s
      (fun _ t => t.files (identityOf workspace) = s.files (identityOf workspace)) := by
  apply completes_bind (Q := fun opened t => opened = true ∧ t.locks = s.locks ∧
    t.files (identityOf workspace) = s.files (identityOf workspace))
  · apply completes_perform
    intro choice hfine
    simp only [machine, perform, if_neg hfine.not]
    exact ⟨trivial, rfl, Function.update_of_ne (identity_ne_lock _ _) _ _⟩
  · rintro opened t ⟨hopened, hlocks, hfiles⟩
    apply completes_bind (Q := fun _ u => u = t) _ _ _ (completes_require _ _ _ hopened rfl)
    rintro _ u rfl
    have hfree : u.locks (lockOf workspace) = none := by
      rw [hlocks]
      exact h
    apply completes_bind (Q := fun locked v => locked = true ∧ v.files = u.files)
    · apply completes_perform
      intro choice hfine
      simp only [machine, perform, if_neg hfine.not, hfree]
      exact ⟨trivial, trivial⟩
    · rintro locked v ⟨hlocked, hsame⟩
      apply completes_bind (Q := fun _ w => w = v) _ _ _ (completes_require _ _ _ hlocked rfl)
      rintro _ w rfl
      apply completes_bind (Q := fun inherited x => inherited = true ∧ x.files = w.files)
      · apply completes_perform
        intro choice hfine
        simp only [machine, perform, if_neg hfine.not]
        exact ⟨trivial, trivial⟩
      · rintro inherited x ⟨hinherited, hlast⟩
        apply completes_require _ _ _ hinherited
        rw [hlast, hsame]
        exact hfiles

theorem completes_writeAll (path : Position) (fuel : ℕ) (bytes : Bytes) (s : Storage ι)
    (hfuel : bytes.length ≤ fuel) :
    Completes (machine attributes) who Fine (writeAll path fuel bytes) s
      (fun done _ => done = true) := by
  induction fuel generalizing bytes s with
  | zero => rfl
  | succ fuel ih =>
    rw [writeAll]
    split
    · rfl
    · rename_i hne
      have hpos := List.length_pos_iff.mpr hne
      apply completes_bind (Q := fun answer _ => ∃ count, answer = some count ∧ 0 < count)
      · apply completes_perform
        intro choice hfine
        simp only [machine, perform, if_neg hfine.not]
        exact ⟨_, rfl, by omega⟩
      · rintro answer t ⟨count, rfl, hcount⟩
        apply ih
        rw [List.length_drop]
        omega

theorem completes_ensureIdentity (workspace : Position) (identity : Bytes) (s : Storage ι)
    (h : Whole workspace identity s) :
    Completes (machine attributes) who Fine (ensureIdentity (identityOf workspace) identity) s
      (fun _ _ => True) := by
  apply completes_bind (Q := fun creation t => creation = .created ∨
    creation = .alreadyExists ∧ t.files (identityOf workspace) = some identity)
  · apply completes_perform
    intro choice hfine
    rcases h with hnone | hsome
    · simp only [machine, perform, if_neg hfine.not, hnone]
      exact Or.inl rfl
    · simp only [machine, perform, if_neg hfine.not, hsome]
      exact Or.inr ⟨rfl, hsome⟩
  · rintro creation t (rfl | ⟨rfl, hfile⟩)
    · apply completes_bind _ _ _ (completes_writeAll _ _ _ _ (Nat.le_refl _))
      rintro done u rfl
      exact completes_require _ _ _ rfl trivial
    · apply completes_bind (Q := fun answer _ => answer = some identity)
      · apply completes_perform
        intro choice hfine
        simp only [machine, perform, if_neg hfine.not]
        exact hfile
      · rintro answer u rfl
        exact completes_require _ _ _ (decide_eq_true rfl) trivial

/-- The overlay base and the rootfs do not contain one another. -/
def Apart (base : Position) (lower : Bytes) : Bool :=
  !(UnixPath.startsWith (UnixPath.absolute base) lower ||
    UnixPath.startsWith lower (UnixPath.absolute base))

theorem reaches_runOverlay (run : OverlayRun) (s : Storage ι) (hapart : Apart base run.lower = true)
    (hclear : Clear (run.workspace sha256 base) s)
    (hfree : s.locks (lockOf (run.workspace sha256 base)) = none)
    (hwhole : Whole (run.workspace sha256 base) run.identity s) :
    Reaches (machine attributes) who Fine (fun t => (t.progress who).identified = true)
      (runOverlay sha256 base run) s := by
  have hbase : Clear base s := fun p hp => hclear p (hp.trans (List.prefix_append _ _))
  rw [runOverlay_eq]
  apply reaches_left
  rw [mountOverlayRootfs_eq]
  apply reaches_bind (Q := fun _ t => t = s) _ _ _ (completes_require _ _ _ hapart rfl)
  rintro _ t rfl
  apply reaches_bind _ _ _ (completes_ensurePrivateDirectory _ _ _ hbase)
  rintro _ u ⟨hfiles, hlocks⟩
  apply reaches_left
  rw [stableOverlayPaths_eq]
  have hclear' : Clear (run.workspace sha256 base) u := by
    intro p hp
    rw [hfiles]
    exact hclear p hp
  apply reaches_bind _ _ _ (completes_ensurePrivateDirectory _ _ _ hclear')
  rintro _ v ⟨hfiles', hlocks'⟩
  have hfree' : v.locks (lockOf (run.workspace sha256 base)) = none := by
    rw [hlocks', hlocks]
    exact hfree
  apply reaches_bind _ _ _ (completes_acquireOverlayLock _ _ hfree')
  intro _ w hidentity
  have hwhole' : Whole (run.workspace sha256 base) run.identity w := by
    rw [Whole, hidentity, hfiles', hfiles]
    exact hwhole
  apply reaches_bind (Q := fun _ => Whole (run.workspace sha256 base) run.identity)
  · exact completes_perform _ _ fun choice _ => hwhole'
  · intro _ x hx
    apply reaches_bind _ _ _ (completes_ensureIdentity _ _ _ hx)
    intro _ y _
    apply reaches_left
    refine Or.inr fun choice _ => ?_
    show ((perform attributes who (.note .identified) choice y).2.progress who).identified = true
    rw [perform, advance_self]
    rfl

/-- A run comes past its lock only where base and rootfs are apart. -/
theorem apart_runOverlay (run : OverlayRun) :
    Survives (machine attributes) who (Outside (run.workspace sha256 base) who)
      (runOverlay sha256 base run)
      (fun _ s => (s.progress who).workspace ≠ none → Apart base run.lower = true)
      (fun _ s => (s.progress who).workspace ≠ none → Apart base run.lower = true) := by
  by_cases hapart : Apart base run.lower = true
  · exact survives_of_forall _ (fun _ _ _ => hapart) fun _ _ _ => hapart
  · rw [runOverlay_eq, mountOverlayRootfs_eq]
    apply survives_bind (Q := fun _ _ => False)
    · apply survives_bind _ _ (survives_require _ _ fun s _ h hne => absurd h.progress hne)
      intro _
      exact survives_false _ fun s h => hapart h.1
    · exact fun _ => survives_false _ fun _ h => h

/-! ### What becomes of the workspace -/

/-- The disk lets a later run with this identity past `ensure_identity`: every run whose
system calls succeed comes past it, and only a workspace that is completely recorded for
another identity is refused. -/
def Recovers (sha256 : Bytes → Bytes) (base : Position) (attributes : Bytes → Attributes)
    (run : OverlayRun) (s : Storage ι) : Prop :=
  (∀ (who : ι) (later : OverlayRun) (schedule : ℕ → Choice), later.SameIdentity run →
    (∀ k, (schedule k).fails = false) →
    ∃ n, (((Attempt.mk who later ((List.range n).map schedule)).outcome sha256 base attributes
      s).2.progress who).identified = true) ∧
  ∀ later : Attempt ι, later.run.SameIdentity run →
    (later.outcome sha256 base attributes s).1.ending =
      .error (.failed (mismatch (run.workspace sha256 base))) →
    ∃ overlayId lower, (overlayId, lower) ≠ (run.overlayId, run.lower) ∧
      s.files (identityOf (run.workspace sha256 base)) = some (overlayIdentity overlayId lower)

/-- The identities are told apart before their ends. -/
theorem overlayIdentity_from {id id' lower lower' : Bytes} (hid : id.length < 2 ^ 64)
    (hid' : id'.length < 2 ^ 64) (hlower : lower.length < 2 ^ 64) (hlower' : lower'.length < 2 ^ 64)
    (h : overlayIdentity id lower <+: overlayIdentity id' lower') :
    overlayIdentity id lower = overlayIdentity id' lower' := by
  obtain ⟨rest, hrest⟩ := h
  simp only [overlayIdentity, appendIdentityPart, List.append_assoc,
    List.append_cancel_left_eq] at hrest
  have hfirst := part_injective (bigEndian64 lower.length ++ (lower ++ rest))
    (bigEndian64 lower'.length ++ lower') hid hid' (by simpa using hrest)
  have hsecond := part_injective rest [] hlower hlower' (by simpa using hfirst.2)
  rw [hfirst.1, hsecond.1]

theorem stopped_leave {first : OverlayRun} (attempt : Attempt ι) {written : Bytes}
    (hsame : attempt.run.SameIdentity first) (hne : written ≠ first.identity) {s : Storage ι}
    (hidle : Idle s) (hs : s.files (identityOf (first.workspace sha256 base)) = some written) :
    (((attempt.outcome sha256 base attributes s).2.progress attempt.who).identified = false) ∧
      (attempt.leave sha256 base attributes s).files
        (identityOf (first.workspace sha256 base)) = some written := by
  rw [← hsame.workspace] at hs ⊢
  rw [← hsame.identity] at hne
  have hrun : Survives (machine attributes) attempt.who
      (Stopped (attempt.run.workspace sha256 base) written attempt.who)
      (runOverlay sha256 base attempt.run)
      (fun _ => Stopped (attempt.run.workspace sha256 base) written attempt.who)
      (fun _ => Stopped (attempt.run.workspace sha256 base) written attempt.who) :=
    survives_post _ (stopped_runOverlay attempt.run hne) (fun _ _ h => h.elim) fun _ _ h => h
  have hstopped := hrun.state ⟨hs, by rw [hidle attempt.who]; rfl⟩ attempt.choices
  exact ⟨hstopped.unidentified, hstopped.recorded⟩

theorem stopped_afterAttempts (attributes : Bytes → Attributes) {first : OverlayRun}
    (attempts : List (Attempt ι)) {written : Bytes}
    (hsame : ∀ attempt ∈ attempts, attempt.run.SameIdentity first)
    (hne : written ≠ first.identity) {s : Storage ι} (hidle : Idle s)
    (hs : s.files (identityOf (first.workspace sha256 base)) = some written) :
    Idle (afterAttempts sha256 base attributes attempts s) ∧
      (afterAttempts sha256 base attributes attempts s).files
        (identityOf (first.workspace sha256 base)) = some written := by
  induction attempts generalizing s with
  | nil => exact ⟨hidle, hs⟩
  | cons attempt rest ih =>
    have hfirst := hsame attempt List.mem_cons_self
    exact ih (fun later hlater => hsame later (List.mem_cons_of_mem _ hlater))
      (idle_leave sha256 base attributes attempt hidle)
      (stopped_leave attempt hfirst hne hidle hs).2

/-- A first run of an identity that ends anywhere past its lock leaves a disk from which
later runs recover exactly if it has not created the identity file or has written all of
it. Otherwise the file is a beginning of the identity and completely records none, and no
later run of that identity ever comes past it. -/
theorem identity_recovers_iff (sha256 : Bytes → Bytes) (base : Position)
    (attributes : Bytes → Attributes) (first : Attempt ι) (s : Storage ι) (hidle : Idle s)
    (hnew : s.files (identityOf (first.run.workspace sha256 base)) = none)
    (hentered : ((first.outcome sha256 base attributes s).2.progress first.who).workspace ≠ none) :
    let file := identityOf (first.run.workspace sha256 base)
    let left := first.leave sha256 base attributes s
    (Recovers sha256 base attributes first.run left ↔
      left.files file = none ∨ left.files file = some first.run.identity) ∧
    ∀ written, left.files file = some written → written ≠ first.run.identity →
      written <+: first.run.identity ∧
      (∀ overlayId lower, overlayId.length < 2 ^ 64 → lower.length < 2 ^ 64 →
        written ≠ overlayIdentity overlayId lower) ∧
      ∀ (attempts : List (Attempt ι)) (later : Attempt ι),
        (∀ attempt ∈ later :: attempts, attempt.run.SameIdentity first.run) →
        ((later.outcome sha256 base attributes
          (afterAttempts sha256 base attributes attempts left)).2.progress
            later.who).identified = false := by
  intro file left
  have houtside : Outside (first.run.workspace sha256 base) first.who s :=
    ⟨by rw [hidle first.who]; rfl, hnew⟩
  obtain ⟨written, hbegun, hprefix⟩ :=
    (first_runOverlay first.run).state houtside first.choices hentered
  have hapart := (apart_runOverlay first.run).state houtside first.choices hentered
  have hfile : left.files file = written := hbegun.recorded
  have hleft : Idle left := idle_leave sha256 base attributes first hidle
  have hfree : left.locks (lockOf (first.run.workspace sha256 base)) = none :=
    free_of_reserved hbegun.reserved
  have hnever : ∀ written, left.files file = some written → written ≠ first.run.identity →
      ∀ (attempts : List (Attempt ι)) (later : Attempt ι),
        (∀ attempt ∈ later :: attempts, attempt.run.SameIdentity first.run) →
        ((later.outcome sha256 base attributes
          (afterAttempts sha256 base attributes attempts left)).2.progress
            later.who).identified = false := by
    intro written hwritten hne attempts later hsame
    obtain ⟨hidle', hrecorded⟩ := stopped_afterAttempts attributes attempts
      (fun attempt ha => hsame attempt (List.mem_cons_of_mem _ ha)) hne hleft hwritten
    exact (stopped_leave later (hsame later List.mem_cons_self) hne hidle' hrecorded).1
  refine ⟨⟨fun hrecovers => ?_, fun hwhole => ⟨?_, ?_⟩⟩, fun written hwritten hne =>
    ⟨?_, ?_, hnever written hwritten hne⟩⟩
  · by_contra hpartial
    rw [not_or] at hpartial
    obtain ⟨bytes, hbytes⟩ := Option.ne_none_iff_exists'.mp hpartial.1
    have hne : bytes ≠ first.run.identity := fun he => hpartial.2 (by rw [hbytes, he])
    obtain ⟨n, hn⟩ := hrecovers.1 first.who first.run (fun _ => ⟨false, 0, 0⟩) ⟨rfl, rfl⟩ fun _ => rfl
    have hstopped := hnever bytes hbytes hne [] (.mk first.who first.run
      ((List.range n).map fun _ => ⟨false, 0, 0⟩)) fun attempt ha => by
        rw [List.mem_singleton.mp ha]
        exact ⟨rfl, rfl⟩
    exact absurd (hn.symm.trans hstopped) (by decide)
  · intro who later schedule hsame hfine
    refine solo_of_reaches _ _ (reaches_runOverlay later left ?_ ?_ ?_ ?_) schedule hfine
    · rw [hsame.2]
      exact hapart
    · rw [hsame.workspace]
      exact hbegun.clear
    · rw [hsame.workspace]
      exact hfree
    · rw [hsame.workspace, hsame.identity]
      exact hwhole
  · intro later hsame hrefused
    have hpresent : Whole (later.run.workspace sha256 base) later.run.identity left := by
      rw [hsame.workspace, hsame.identity]
      exact hwhole
    rw [← hsame.workspace] at hrefused
    exact absurd rfl ((admitted_runOverlay later.run).broken hpresent later.choices hrefused)
  · exact hprefix written (hfile.symm.trans hwritten)
  · intro overlayId lower hid hlower he
    subst he
    have hbegins := hprefix _ (hfile.symm.trans hwritten)
    exact hne (overlayIdentity_from hid first.run.id_length hlower first.run.lower_length hbegins)

/-- A disk on which nothing has been done. -/
def emptyDisk : Storage Unit :=
  ⟨fun _ => none, fun _ => none, fun _ => none, fun _ => none, fun _ => Progress.none⟩

/-- A run that is killed after so many system calls, none of which fails. -/
def killedAfter (calls : ℕ) : Attempt Unit :=
  ⟨(), pairOfRuns false, List.replicate calls ⟨false, 100, 0⟩⟩

theorem identity_recovers_killed :
    ¬Recovers pairDigest [lit "overlay"] (fun _ => ⟨0, 0, 0o755⟩) (pairOfRuns false)
      ((killedAfter 9).leave pairDigest [lit "overlay"] (fun _ => ⟨0, 0, 0o755⟩) emptyDisk) := by
  obtain ⟨hiff, -⟩ := identity_recovers_iff pairDigest [lit "overlay"] (fun _ => ⟨0, 0, 0o755⟩)
    (killedAfter 9) emptyDisk (fun _ => rfl) rfl (by decide +kernel)
  have hcreated : ((killedAfter 9).leave pairDigest [lit "overlay"] (fun _ => ⟨0, 0, 0o755⟩)
      emptyDisk).files (identityOf ((pairOfRuns false).workspace pairDigest [lit "overlay"])) =
      some [] := by decide +kernel
  rintro hrecovers
  rcases hiff.mp hrecovers with hnone | hwhole
  · cases hcreated.symm.trans hnone
  · exact absurd (hcreated.symm.trans hwhole) (by decide +kernel)

/-- The first run is killed right after it has created the identity file; the second is
refused although nothing was ever recorded. -/
theorem created_identity_refused :
    let left := (killedAfter 9).leave pairDigest [lit "overlay"] (fun _ => ⟨0, 0, 0o755⟩) emptyDisk
    left.files (identityOf ((pairOfRuns false).workspace pairDigest [lit "overlay"])) = some [] ∧
      ¬Recovers pairDigest [lit "overlay"] (fun _ => ⟨0, 0, 0o755⟩) (pairOfRuns false) left := by
  intro left
  have hcreated : left.files
      (identityOf ((pairOfRuns false).workspace pairDigest [lit "overlay"])) = some [] := by
    decide +kernel
  refine ⟨hcreated, fun hrecovers => ?_⟩
  obtain ⟨overlayId, lower, -, hfile⟩ := hrecovers.2 (killedAfter 10) ⟨rfl, rfl⟩ rfl
  have hempty := Option.some.inj (hcreated.symm.trans hfile)
  simp [overlayIdentity, appendIdentityPart, bigEndian64] at hempty

end Sandcamp.Sandrun
