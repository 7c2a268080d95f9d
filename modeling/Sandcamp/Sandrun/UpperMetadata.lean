import Sandcamp.Sandrun.Recovery

/-!
# The metadata of the upper directory (linux.rs:487-534)

The directory is made, handed over to the owner of the lower root and given its mode in
three steps, and a directory that is found is taken to be through with them. That is so
as long as no run ends between the first step and the last.
-/

namespace Sandcamp.Sandrun
open Foundations Machine

/-- The upper directory of a run. -/
def OverlayRun.upper (sha256 : Bytes → Bytes) (base : Position) (run : OverlayRun) : Position :=
  run.workspace sha256 base ++ [lit "upper"]

theorem OverlayRun.SameIdentity.upper {run run' : OverlayRun} (h : run.SameIdentity run')
    (sha256 : Bytes → Bytes) (base : Position) :
    run.upper sha256 base = run'.upper sha256 base := by
  unfold OverlayRun.upper
  rw [h.workspace]

variable {ι : Type} {sha256 : Bytes → Bytes} {base upper : Position}
  {attributes : Bytes → Attributes} {who : ι} {lower : Bytes} {s : Storage ι}

/-- What a new upper directory takes over from the root of the lower file system. -/
def Attributes.inherited (lower : Attributes) : Attributes :=
  ⟨lower.uid, lower.gid, lower.mode &&& 0o7777⟩

/-- The run is cut off before, or has failed in, one of the steps after the `mkdir`. -/
def Halfway (upper : Position) (lower : Bytes) : Break Operation RuntimeError → Prop
  | .cutOff (.symlinkMetadata path) => path = upper
  | .cutOff (.rootfsMetadata path) => path = lower
  | .cutOff (.chown path _ _) => path = upper
  | .cutOff (.chmod path _) => path = upper
  | .cutOff _ => False
  | .failed error =>
    error = failedOperation "overlay_upper_stat_failed" upper ∨
    error = .operation (lit "rootfs_stat_failed") (some lower) ∨
    error = failedOperation "overlay_upper_chown_failed" upper ∨
    error = failedOperation "overlay_upper_chmod_failed" upper

/-- The layers that are to be mounted next: `ensure_overlay_upper_directory` has returned. -/
def mounting : Break Operation RuntimeError → Option Layers
  | .cutOff (.mountOverlay _ layers) => some layers
  | _ => none

theorem mounting_eq_none {e : Break Operation RuntimeError}
    (h : ∀ lower layers, e ≠ .cutOff (.mountOverlay lower layers)) : mounting e = none := by
  cases e with
  | failed error => rfl
  | cutOff o =>
    cases o with
    | mountOverlay lower layers => exact absurd rfl (h lower layers)
    | _ => rfl

theorem Halfway.mounting {e : Break Operation RuntimeError} (h : Halfway upper lower e) :
    mounting e = none := by
  apply mounting_eq_none
  rintro lower layers rfl
  exact h

/-! ### Everything else leaves the directory alone -/

/-- Operations that are not on the upper directory. -/
def Operation.Elsewhere (upper : Position) : Operation → Prop
  | .mkdirAll path => ¬upper <+: path
  | .mkdir path | .chown path _ _ | .chmod path _ => path ≠ upper
  | .mountOverlay .. => False
  | _ => True

/-- Breaks outside of `ensure_overlay_upper_directory`, before or after it. -/
def Aside (upper : Position) : Break Operation RuntimeError → Prop
  | .failed _ => True
  | .cutOff o => o.Elsewhere upper

theorem Aside.mounting {e : Break Operation RuntimeError} (h : Aside upper e) :
    mounting e = none := by
  apply mounting_eq_none
  rintro lower layers rfl
  exact h

variable [DecidableEq ι]

theorem elsewhere_perform {o : Operation} (h : o.Elsewhere upper) (choice : Choice)
    (s : Storage ι) :
    (perform attributes who o choice s).2.directories upper = s.directories upper := by
  have heffect := effect_perform attributes who o choice s
  generalize (perform attributes who o choice s).2 = s' at heffect ⊢
  cases heffect with
  | mkdirAll made hsame => exact hsame upper h
  | mkdir path made => exact Function.update_of_ne (Ne.symm h) _ _
  | chown path uid gid changed => exact Function.update_of_ne (Ne.symm h) _ _
  | chmod path mode changed => exact Function.update_of_ne (Ne.symm h) _ _
  | mountOverlay lower layers => exact h.elim
  | exec => exact congrFun (Storage.directories_closeOnExec s who) upper
  | nothing | openLock | flock | inheritLock | createNew | write | note => rfl

/-- What the upper directory is like does not change outside of
`ensure_overlay_upper_directory`. -/
theorem survives_aside {α : Type} (found : Option Attributes) (t : Routine α)
    (ht : t.Within (Aside upper)) :
    Survives (machine attributes) who (fun s : Storage ι => s.directories upper = found) t
      (fun _ s => s.directories upper = found)
      (fun e s => Aside upper e ∧ s.directories upper = found) :=
  survives_within t ht fun _ ho choice s h => (elsewhere_perform ho choice s).trans h

section Positions

variable (run : OverlayRun)

theorem upper_length : (run.upper sha256 base).length = base.length + 2 := by
  simp [OverlayRun.upper, OverlayRun.workspace, workspaceOf]

/-- A path that is no longer than the upper directory's lies elsewhere or is that. -/
theorem not_upper_prefix {path : Position} (hlength : path.length ≤ base.length + 2)
    (hne : run.upper sha256 base ≠ path) : ¬run.upper sha256 base <+: path := by
  intro h
  apply hne
  apply h.eq_of_length_le
  rw [upper_length]
  exact hlength

theorem upper_ne_disk (name : Bytes) :
    run.upper sha256 base ≠ diskMountBase base ++ [name] := by
  intro h
  unfold OverlayRun.upper OverlayRun.workspace workspaceOf diskMountBase at h
  have hfirst := (List.append_inj' h rfl).1
  exact hexLower_ne_diskMounts _ (List.singleton_inj.mp (List.append_cancel_left hfirst))

theorem aside_ensurePrivateDirectory {path : Position} (operation : String)
    (h : path.length ≤ base.length + 1) :
    (ensurePrivateDirectory path operation).Within (Aside (run.upper sha256 base)) := by
  apply within_ensurePrivateDirectory
  · apply not_upper_prefix run (by omega)
    intro he
    have hlength := congrArg List.length he
    rw [upper_length] at hlength
    omega
  · trivial
  · trivial

theorem aside_acquireOverlayLock (path : Position) :
    (acquireOverlayLock path).Within (Aside upper) :=
  within_acquireOverlayLock path trivial trivial trivial fun _ _ => trivial

theorem aside_ensureIdentity (path : Position) (identity : Bytes) :
    (ensureIdentity path identity).Within (Aside upper) := by
  have hcreate : (call (.createNew path)).Within (Aside upper) := Thread.within_perform _ trivial
  have hread : (call (.read path)).Within (Aside upper) := Thread.within_perform _ trivial
  apply Thread.within_bind _ _ hcreate
  intro creation
  cases creation with
  | failed => trivial
  | created =>
    apply Thread.within_bind _ _ (within_writeAll _ _ _ fun _ => trivial)
    intro done
    exact within_require _ _ trivial
  | alreadyExists =>
    apply Thread.within_bind _ _ hread
    intro answer
    cases answer with
    | none => trivial
    | some actual => exact within_require _ _ trivial

theorem upper_ne_child {child : String} (h : child ≠ "upper") :
    run.upper sha256 base ≠ run.workspace sha256 base ++ [lit child] := by
  intro he
  have hlast := List.append_cancel_left he
  exact h ((lit_inj _ _).mp (List.singleton_inj.mp hlast).symm)

theorem aside_layOut :
    (layOut (run.workspace sha256 base)).Within (Aside (run.upper sha256 base)) := by
  have hchild : ∀ child, child ≠ "upper" →
      ¬run.upper sha256 base <+: run.workspace sha256 base ++ [lit child] := by
    intro child hne
    apply not_upper_prefix run
    · simp [OverlayRun.workspace, workspaceOf]
    · exact upper_ne_child run hne
  apply within_layOut
  · trivial
  · intro name hname
    rcases List.mem_pair.mp hname with rfl | rfl
    · exact hchild "work" (by decide)
    · exact hchild "merged" (by decide)
  · exact fun _ _ => trivial
  · trivial
  · intro name he
    have hlength := congrArg List.length he
    rw [upper_length] at hlength
    simp [OverlayRun.workspace, workspaceOf] at hlength
  · exact fun _ => trivial
  · exact fun _ => trivial

theorem aside_finishOverlay :
    (finishOverlay sha256 base run).Within (Aside (run.upper sha256 base)) := by
  apply within_finishOverlay
  · intro names hnames
    apply not_upper_prefix run
    · simp only [diskMountBase, List.length_append, List.length_singleton]
      omega
    · cases names with
      | nil =>
        intro he
        have hlength := congrArg List.length he
        rw [upper_length] at hlength
        simp [diskMountBase] at hlength
      | cons name rest =>
        obtain rfl : rest = [] := by
          simpa using hnames
        exact upper_ne_disk run name
  · exact fun _ => trivial
  · exact fun _ => trivial
  · trivial
  · trivial
  · exact fun _ _ _ => trivial
  · exact fun _ _ => trivial

end Positions

/-! ### The three steps -/

section Steps

theorem copies_rootMetadata :
    Survives (machine attributes) who (fun s : Storage ι => ∃ old, s.directories upper = some old)
      (copyRootMetadata upper lower)
      (fun _ s => s.directories upper = some (attributes lower).inherited)
      (fun e _ => Halfway upper lower e) := by
  apply survives_bind (Q := fun answer s => (answer = none ∨ answer = some (attributes lower)) ∧
    ∃ old, s.directories upper = some old)
  · apply survives_perform
    · exact fun _ _ => rfl
    · intro choice s h
      by_cases hfails : choice.fails = true
      · simp only [machine, perform, if_pos hfails]
        exact ⟨Or.inl trivial, h⟩
      · simp only [machine, perform, if_neg hfails]
        exact ⟨Or.inr trivial, h⟩
  · intro answer
    cases answer with
    | none => exact survives_fail _ fun _ _ => Or.inr (Or.inl rfl)
    | some metadata =>
      apply survives_bind (Q := fun owned s => metadata = attributes lower ∧
        (owned = true → ∃ mode, s.directories upper = some ⟨metadata.uid, metadata.gid, mode⟩))
      · apply survives_perform
        · exact fun _ _ => rfl
        · rintro choice s ⟨hanswer, old, hold⟩
          have hmetadata : metadata = attributes lower := by
            rcases hanswer with hnone | hsome
            · cases hnone
            · exact Option.some.inj hsome
          by_cases hfails : choice.fails = true
          · simp only [machine, perform, if_pos hfails]
            exact ⟨hmetadata, by simp⟩
          · simp only [machine, perform, if_neg hfails, hold]
            exact ⟨hmetadata, fun _ => ⟨old.mode, Function.update_self _ _ _⟩⟩
      · intro owned
        apply survives_bind _ _ (survives_require _ _ fun _ _ _ => Or.inr (Or.inr (Or.inl rfl)))
        intro _
        apply survives_bind (Q := fun changed s => changed = true →
          s.directories upper = some (attributes lower).inherited)
        · apply survives_perform
          · exact fun _ _ => rfl
          · rintro choice s ⟨howned, hmetadata, hmode⟩
            obtain ⟨mode, hmode⟩ := hmode howned
            by_cases hfails : choice.fails = true
            · simp only [machine, perform, if_pos hfails]
              simp
            · simp only [machine, perform, if_neg hfails, hmode, hmetadata]
              exact fun _ => Function.update_self _ _ _
        · intro changed
          exact survives_require_last _ _ (fun _ _ _ => Or.inr (Or.inr (Or.inr rfl)))
            fun s hchanged h => h hchanged

/-- What a run leaves that finds no upper directory and does not come to the mount. -/
def Unmade (upper : Position) (lower : Bytes) (e : Break Operation RuntimeError)
    (s : Storage ι) : Prop :=
  mounting e = none ∧ (s.directories upper = none ∨ Halfway upper lower e)

/-- A run that finds no upper directory leaves none, breaks halfway, or gives it the
metadata of the lower root. -/
theorem makes_upper :
    Survives (machine attributes) who (fun s : Storage ι => s.directories upper = none)
      (ensureOverlayUpperDirectory upper lower)
      (fun _ s => s.directories upper = some (attributes lower).inherited)
      (Unmade upper lower) := by
  apply survives_bind (Q := fun creation s => if creation = .created
    then ∃ old, s.directories upper = some old else s.directories upper = none)
  · apply survives_perform
    · exact fun s h => ⟨rfl, Or.inl h⟩
    · intro choice s h
      simp only [machine, perform]
      split
      · rw [if_neg (by simp)]
        exact h
      · split
        · rw [if_neg (by simp)]
          exact h
        · exact ⟨_, Function.update_self _ _ _⟩
  · intro creation
    apply survives_bind _ _ (survives_require _ _ ?_)
    · intro _
      apply survives_bind (Q := fun metadata s => (metadata.isSome = true →
        creation = .created) ∧ if creation = .created then ∃ old, s.directories upper = some old
          else s.directories upper = none)
      · apply survives_perform
        · exact fun s h => ⟨rfl, Or.inr rfl⟩
        · rintro choice s ⟨hcreation, h⟩
          refine ⟨fun hmetadata => ?_, h⟩
          by_contra hne
          rw [if_neg hne] at h
          by_cases hfails : choice.fails = true
          · simp only [machine, perform, if_pos hfails] at hmetadata
            cases hmetadata
          · simp only [machine, perform, if_neg hfails, h] at hmetadata
            cases hmetadata
      · intro metadata
        apply survives_bind _ _ (survives_require _ _ fun s _ h => ⟨rfl, Or.inr (Or.inl rfl)⟩)
        intro _
        by_cases hcreated : creation = .created
        · rw [if_pos hcreated]
          apply survives_post _ (survives_pre _ copies_rootMetadata ?_)
          · exact fun _ _ h => h
          · exact fun e _ h => ⟨h.mounting, Or.inr h⟩
          · rintro s ⟨-, -, h⟩
            rw [if_pos hcreated] at h
            exact h
        · exact survives_false _ fun s h => hcreated (h.2.1 h.1)
    · intro s hfailed h
      refine ⟨rfl, Or.inl ?_⟩
      have hcreation : creation = .failed := by
        by_contra hne
        rw [decide_eq_true hne] at hfailed
        cases hfailed
      rw [if_neg (by rw [hcreation]; simp)] at h
      exact h

/-- A run that finds the upper directory leaves it as it is. -/
theorem keeps_upper (found : Attributes) :
    Survives (machine attributes) who (fun s : Storage ι => s.directories upper = some found)
      (ensureOverlayUpperDirectory upper lower)
      (fun _ s => s.directories upper = some found)
      (fun e s => mounting e = none ∧ s.directories upper = some found) := by
  apply survives_bind (Q := fun creation s => creation ≠ .created ∧
    s.directories upper = some found)
  · apply survives_perform
    · exact fun s h => ⟨rfl, h⟩
    · intro choice s h
      simp only [machine, perform]
      split
      · exact ⟨by simp, h⟩
      · rw [if_pos (Or.inl (by rw [h]; rfl))]
        exact ⟨by simp, h⟩
  · intro creation
    apply survives_bind _ _ (survives_require _ _ fun s _ h => ⟨rfl, h.2⟩)
    intro _
    apply survives_bind (Q := fun _ s => creation ≠ .created ∧ s.directories upper = some found)
    · apply survives_perform
      · exact fun s h => ⟨rfl, h.2.2⟩
      · exact fun choice s h => h.2
    · intro metadata
      apply survives_bind _ _ (survives_require _ _ fun s _ h => ⟨rfl, h.2⟩)
      intro _
      by_cases hcreated : creation = .created
      · exact survives_false _ fun s h => h.2.1 hcreated
      · rw [if_neg hcreated]
        exact survives_pure _ fun s h => h.2.2

end Steps

/-! ### Whole runs -/

theorem yields_layOut (workspace : Position) :
    (layOut workspace).Yields fun layers => layers.upper = workspace ++ [lit "upper"] := by
  apply Thread.yields_bind
  intro _
  apply Thread.yields_bind
  intro _
  apply Thread.yields_bind
  intro _
  apply Thread.yields_bind
  intro merged
  rfl

/-- A run does with its upper directory what `ensure_overlay_upper_directory` does. -/
theorem survives_around_upper (run : OverlayRun) {found : Option Attributes} {kept : Attributes}
    {C : Break Operation RuntimeError → Storage ι → Prop}
    (hupper : Survives (machine attributes) who
      (fun s : Storage ι => s.directories (run.upper sha256 base) = found)
      (ensureOverlayUpperDirectory (run.upper sha256 base) run.lower)
      (fun _ s => s.directories (run.upper sha256 base) = some kept) C)
    (hbefore : ∀ e s, Aside (run.upper sha256 base) e →
      s.directories (run.upper sha256 base) = found → C e s)
    (hafter : ∀ e s, (∀ layers, mounting e = some layers → layers.upper = run.upper sha256 base) →
      s.directories (run.upper sha256 base) = some kept → C e s) :
    Survives (machine attributes) who
      (fun s : Storage ι => s.directories (run.upper sha256 base) = found)
      (runOverlay sha256 base run)
      (fun _ s => s.directories (run.upper sha256 base) = some kept) C := by
  have haside : ∀ {α : Type} (t : Routine α), t.Within (Aside (run.upper sha256 base)) →
      Survives (machine attributes) who
        (fun s : Storage ι => s.directories (run.upper sha256 base) = found) t
        (fun _ s => s.directories (run.upper sha256 base) = found) C := fun t ht =>
    survives_post t (survives_aside found t ht) (fun _ _ h => h) fun e s h => hbefore e s h.1 h.2
  have hnote : (call (.note (.acquired (run.workspace sha256 base)))).Within
      (Aside (run.upper sha256 base)) := ⟨trivial, fun _ => trivial⟩
  have hunmounted : ∀ e s, mounting e = none →
      s.directories (run.upper sha256 base) = some kept → C e s := by
    intro e s he
    apply hafter
    intro layers hlayers
    rw [he] at hlayers
    cases hlayers
  have hbase : base.length ≤ base.length + 1 := by omega
  have hworkspace : (run.workspace sha256 base).length ≤ base.length + 1 := by
    simp [OverlayRun.workspace, workspaceOf]
  rw [runOverlay_eq]
  apply survives_bind (Q := fun _ s => s.directories (run.upper sha256 base) = some kept)
  · rw [mountOverlayRootfs_eq]
    apply survives_bind _ _ (haside _ (within_require _ _ trivial))
    intro _
    apply survives_bind _ _ (haside _ (aside_ensurePrivateDirectory run _ hbase))
    intro _
    apply survives_bind (Q := fun layers s => layers.upper = run.upper sha256 base ∧
      s.directories (run.upper sha256 base) = found)
    · rw [stableOverlayPaths_eq]
      apply survives_bind _ _ (haside _ (aside_ensurePrivateDirectory run _ hworkspace))
      intro _
      apply survives_bind _ _ (haside _ (aside_acquireOverlayLock _))
      intro _
      apply survives_bind _ _ (haside _ hnote)
      intro _
      apply survives_bind _ _ (haside _ (aside_ensureIdentity _ _))
      intro _
      exact (haside _ (aside_layOut run)).yields (yields_layOut _)
    · intro layers
      by_cases hlayers : layers.upper = run.upper sha256 base
      · unfold mountLayers
        rw [hlayers]
        apply survives_bind _ _ (survives_pre _ hupper fun s h => h.2)
        intro _
        apply survives_bind (Q := fun _ s => s.directories (run.upper sha256 base) = some kept)
        · apply survives_perform
          · intro s h
            apply hafter _ _ _ h
            intro other hother
            obtain rfl := Option.some.inj hother
            exact hlayers
          · intro choice s h
            simp only [machine, perform]
            split
            · exact h
            · exact h
        · intro mounted
          apply survives_bind _ _ (survives_require _ _ fun s _ h => hunmounted _ s rfl h)
          intro _
          exact survives_pure _ fun s h => h.2
      · exact survives_false _ fun s h => hlayers h.1
  · intro layers
    apply survives_post _ (survives_aside (some kept) _ (aside_finishOverlay run))
    · exact fun _ s h => h
    · exact fun e s h => hunmounted e s h.1.mounting h.2

theorem attempt_makes_upper (attributes : Bytes → Attributes) (who : ι) (run : OverlayRun) :
    Survives (machine attributes) who
      (fun s : Storage ι => s.directories (run.upper sha256 base) = none)
      (runOverlay sha256 base run)
      (fun _ s => s.directories (run.upper sha256 base) = some (attributes run.lower).inherited)
      (fun e s => Unmade (run.upper sha256 base) run.lower e s ∨
        (∀ layers, mounting e = some layers → layers.upper = run.upper sha256 base) ∧
          s.directories (run.upper sha256 base) = some (attributes run.lower).inherited) := by
  apply survives_around_upper run
  · exact survives_post _ makes_upper (fun _ _ h => h) fun _ _ h => Or.inl h
  · exact fun e s he h => Or.inl ⟨he.mounting, Or.inl h⟩
  · exact fun e s he h => Or.inr ⟨he, h⟩

theorem attempt_keeps_upper (attributes : Bytes → Attributes) (who : ι) (run : OverlayRun)
    (found : Attributes) :
    Survives (machine attributes) who
      (fun s : Storage ι => s.directories (run.upper sha256 base) = some found)
      (runOverlay sha256 base run)
      (fun _ s => s.directories (run.upper sha256 base) = some found)
      (fun e s => (∀ layers, mounting e = some layers → layers.upper = run.upper sha256 base) ∧
        s.directories (run.upper sha256 base) = some found) := by
  have hnone : ∀ {e : Break Operation RuntimeError}, mounting e = none →
      ∀ layers, mounting e = some layers → layers.upper = run.upper sha256 base := by
    intro e he layers hlayers
    rw [he] at hlayers
    cases hlayers
  apply survives_around_upper run
  · exact survives_post _ (keeps_upper found) (fun _ _ h => h) fun _ _ h => ⟨hnone h.1, h.2⟩
  · exact fun e s he h => ⟨hnone he.mounting, h⟩
  · exact fun e s he h => ⟨he, h⟩

/-- The attempt makes the upper directory and ends before it has set its mode. -/
def Attempt.Interrupted (sha256 : Bytes → Bytes) (base : Position)
    (attributes : Bytes → Attributes) (attempt : Attempt ι) (s : Storage ι) : Prop :=
  s.directories (attempt.run.upper sha256 base) = none ∧
    (attempt.outcome sha256 base attributes s).2.directories (attempt.run.upper sha256 base) ≠
      none ∧
    ∃ e, (attempt.outcome sha256 base attributes s).1.ending = .error e ∧
      Halfway (attempt.run.upper sha256 base) attempt.run.lower e

/-- The attempt up to this many system calls. -/
def Attempt.upTo (attempt : Attempt ι) (calls : ℕ) : Attempt ι :=
  { attempt with choices := attempt.choices.take calls }

/-- There is no upper directory, or it is like the lower root. -/
def Alike (attributes : Bytes → Attributes) (run : OverlayRun) (upper : Position)
    (s : Storage ι) : Prop :=
  s.directories upper = none ∨ s.directories upper = some (attributes run.lower).inherited

theorem alike_leave {run : OverlayRun} (attempt : Attempt ι)
    (hsame : attempt.run.SameIdentity run)
    (hwhole : ¬attempt.Interrupted sha256 base attributes s)
    (h : Alike attributes run (run.upper sha256 base) s) :
    Alike attributes run (run.upper sha256 base) (attempt.leave sha256 base attributes s) := by
  unfold Alike at h ⊢
  rw [← hsame.upper, ← hsame.2] at h ⊢
  show (attempt.outcome sha256 base attributes s).2.directories _ = none ∨
    (attempt.outcome sha256 base attributes s).2.directories _ = some _
  rcases h with hnone | hsome
  · have hmakes := attempt_makes_upper attributes attempt.who attempt.run attempt.choices s hnone
    split at hmakes
    · exact Or.inr hmakes
    · rename_i e he
      rcases hmakes with ⟨-, hunmade | hhalfway⟩ | ⟨-, hmade⟩
      · exact Or.inl hunmade
      · left
        by_contra hmade
        exact hwhole ⟨hnone, hmade, e, he, hhalfway⟩
      · exact Or.inr hmade
  · have hkeeps := attempt_keeps_upper attributes attempt.who attempt.run _ attempt.choices
      s hsome
    split at hkeeps
    · exact Or.inr hkeeps
    · exact Or.inr hkeeps.2

theorem alike_afterAttempts {run : OverlayRun} (attempts : List (Attempt ι))
    (hsame : ∀ attempt ∈ attempts, attempt.run.SameIdentity run)
    (hwhole : ∀ before attempt after, attempts = before ++ attempt :: after →
      ¬attempt.Interrupted sha256 base attributes
        (afterAttempts sha256 base attributes before s))
    (h : Alike attributes run (run.upper sha256 base) s) :
    Alike attributes run (run.upper sha256 base)
      (afterAttempts sha256 base attributes attempts s) := by
  induction attempts generalizing s with
  | nil => exact h
  | cons attempt rest ih =>
    have hfirst := alike_leave attempt (hsame attempt List.mem_cons_self)
      (hwhole [] attempt rest rfl) h
    apply ih (fun later hlater => hsame later (List.mem_cons_of_mem _ hlater)) _ hfirst
    intro before later after hsplit
    exact hwhole (attempt :: before) later after (by rw [hsplit]; rfl)

/-- Runs of one identity that may fail or be killed anywhere but between the `mkdir` of
the upper directory and the end of its `chmod`: whenever the next of them is about to
mount its overlay, the upper directory has the owner, the group and the permission bits of
the lower root. And once the directory is there, no run changes its metadata, whatever
they are. -/
theorem upper_keeps_metadata (sha256 : Bytes → Bytes) (base : Position)
    (attributes : Bytes → Attributes) (run : OverlayRun) :
    (∀ (s : Storage ι) (earlier : List (Attempt ι)) (last : Attempt ι),
      s.directories (run.upper sha256 base) = none →
      (∀ attempt ∈ last :: earlier, attempt.run.SameIdentity run) →
      (∀ before attempt after, earlier = before ++ attempt :: after →
        ¬attempt.Interrupted sha256 base attributes
          (afterAttempts sha256 base attributes before s)) →
      ∀ calls e layers,
        ((last.upTo calls).outcome sha256 base attributes
          (afterAttempts sha256 base attributes earlier s)).1.ending = .error e →
        mounting e = some layers →
        layers.upper = run.upper sha256 base ∧
          ((last.upTo calls).outcome sha256 base attributes
            (afterAttempts sha256 base attributes earlier s)).2.directories
              (run.upper sha256 base) = some (attributes run.lower).inherited) ∧
    ∀ (s : Storage ι) (attempt : Attempt ι) (found : Attributes),
      attempt.run.SameIdentity run → s.directories (run.upper sha256 base) = some found →
      ∀ calls, ((attempt.upTo calls).outcome sha256 base attributes s).2.directories
        (run.upper sha256 base) = some found := by
  constructor
  · intro s earlier last hnew hsame hwhole calls e layers he hlayers
    have hlast := hsame last List.mem_cons_self
    have halike := alike_afterAttempts earlier
      (fun attempt ha => hsame attempt (List.mem_cons_of_mem _ ha)) hwhole (Or.inl hnew)
    unfold Alike at halike
    rw [← hlast.upper, ← hlast.2] at halike ⊢
    rcases halike with hnone | hsome
    · rcases (attempt_makes_upper attributes last.who last.run).broken hnone _ he with
        ⟨hmounting, -⟩ | ⟨hupper, hmade⟩
      · rw [hmounting] at hlayers
        cases hlayers
      · exact ⟨hupper layers hlayers, hmade⟩
    · obtain ⟨hupper, hkept⟩ := (attempt_keeps_upper attributes last.who last.run _).broken hsome _ he
      exact ⟨hupper layers hlayers, hkept⟩
  · intro s attempt found hsame hfound calls
    rw [← hsame.upper] at hfound ⊢
    exact (survives_post _ (attempt_keeps_upper attributes attempt.who attempt.run found) (fun _ _ h => h)
      fun _ _ h => h.2).state hfound _

/-- A lower root that belongs to a user. -/
def ownedRoot (_ : Bytes) : Attributes := ⟨1000, 1000, 0o755⟩

/-- A run killed right before the `mkdir` of the upper directory, and one after it. -/
theorem upper_keeps_metadata_killed :
    let left := afterAttempts pairDigest [lit "overlay"] ownedRoot [killedAfter 17] emptyDisk
    (((killedAfter 40).upTo 23).outcome pairDigest [lit "overlay"] ownedRoot left).2.directories
      ((pairOfRuns false).upper pairDigest [lit "overlay"]) = some ⟨1000, 1000, 0o755⟩ := by
  intro left
  refine ((upper_keeps_metadata pairDigest [lit "overlay"] ownedRoot (pairOfRuns false)).1
    emptyDisk [killedAfter 17] (killedAfter 40) rfl ?_ ?_ 23 _ _ rfl rfl).2
  · intro attempt hattempt
    rcases List.mem_pair.mp hattempt with rfl | rfl
    · exact ⟨rfl, rfl⟩
    · exact ⟨rfl, rfl⟩
  · intro before attempt after hsplit hinterrupted
    cases before with
    | nil =>
      injection hsplit with hattempt _
      subst hattempt
      exact hinterrupted.2.1 (by decide +kernel)
    | cons first rest =>
      injection hsplit with _ hrest
      simp at hrest

/-- The first run is killed right after the `mkdir` of the upper directory; the second
comes to the mount with the directory as the `mkdir` has left it. -/
theorem killed_upper_stays_private :
    let left := (killedAfter 18).leave pairDigest [lit "overlay"] ownedRoot emptyDisk
    let second := (killedAfter 20).outcome pairDigest [lit "overlay"] ownedRoot left
    (∃ e layers, second.1.ending = .error e ∧ mounting e = some layers ∧
      layers.upper = (pairOfRuns false).upper pairDigest [lit "overlay"]) ∧
    second.2.directories ((pairOfRuns false).upper pairDigest [lit "overlay"]) =
      some privateAttributes ∧
    privateAttributes ≠ (ownedRoot (pairOfRuns false).lower).inherited := by
  intro left second
  refine ⟨⟨_, _, rfl, rfl, ?_⟩, ?_, ?_⟩
  · decide +kernel
  · decide +kernel
  · decide

end Sandcamp.Sandrun
