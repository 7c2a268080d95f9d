import Sandcamp.Foundations.FileTree

/-!
# The kernel's walk of a path

A path is walked piece by piece from the directory it starts in. A symbolic link is
replaced by its text where it is met; an absolute text starts again at the root. `..`
goes to the parent of the directory that has been reached, and the root is its own
parent. An empty piece and `.` stay, in a directory only. `Plain` paths are those on
which there is no link to meet.
-/

namespace Foundations.FileTree
open UnixPath

variable {α : Type}

/-- Where the text of a link in this directory starts. -/
def linkStart (here : List Bytes) (text : Bytes) : List Bytes :=
  if isAbsolute text then [] else here

inductive Walk (tree : FileTree α) : List Bytes → List Bytes → List Bytes → Prop
  | done (here : List Bytes) : Walk tree here [] here
  | stay {here : List Bytes} {piece : Bytes} {rest there : List Bytes} :
      piece = [] ∨ piece = dot → tree.kindAt here = some .directory →
      Walk tree here rest there → Walk tree here (piece :: rest) there
  | up {here rest there : List Bytes} :
      tree.kindAt here = some .directory → Walk tree here.dropLast rest there →
      Walk tree here (dotDot :: rest) there
  | enter {here : List Bytes} {name : Bytes} {rest there : List Bytes} {kind : FileKind} :
      tree.kindAt (here ++ [name]) = some kind → (∀ text, kind ≠ .symlink text) →
      Walk tree (here ++ [name]) rest there → Walk tree here (name :: rest) there
  | follow {here : List Bytes} {name text : Bytes} {rest there : List Bytes} :
      tree.kindAt (here ++ [name]) = some (.symlink text) →
      Walk tree (linkStart here text) (text.splitOn slash ++ rest) there →
      Walk tree here (name :: rest) there

variable {tree : FileTree α} {here there : List Bytes}

theorem isSome_of_kindAt {position : List Bytes} {kind : FileKind}
    (h : tree.kindAt position = some kind) : (tree.lookup position).isSome := by
  unfold kindAt at h
  obtain ⟨node, hnode, -⟩ := Option.map_eq_some_iff.mp h
  rw [hnode]
  rfl

theorem proper_of_kindAt {name : Bytes} {kind : FileKind}
    (h : tree.kindAt (here ++ [name]) = some kind) : ProperName name :=
  tree.proper here name (isSome_of_kindAt h)

/-- There is an entry at every name on the way, and none is a link. -/
def Plain (tree : FileTree α) (position : List Bytes) : Prop :=
  ∀ way, way ≠ [] → way <+: position →
    ∃ kind, tree.kindAt way = some kind ∧ ∀ text, kind ≠ .symlink text

theorem plain_nil : tree.Plain [] := by
  intro way hway hstart
  exact absurd (List.prefix_nil.mp hstart) hway

theorem plain_snoc {name : Bytes} {kind : FileKind} (h : tree.Plain here)
    (hkind : tree.kindAt (here ++ [name]) = some kind) (hlink : ∀ text, kind ≠ .symlink text) :
    tree.Plain (here ++ [name]) := by
  intro way hway hstart
  rcases List.prefix_concat_iff.mp (by simpa using hstart) with hlast | hbefore
  · rw [hlast]
    exact ⟨kind, by simpa using hkind, hlink⟩
  · exact h way hway hbefore

theorem Plain.start {way : List Bytes} (h : tree.Plain here) (hway : way <+: here) :
    tree.Plain way := fun other hne hother => h other hne (hother.trans hway)

theorem plain_extends {tree' : FileTree α} (hextends : tree.Extends tree') (h : tree.Plain here) :
    tree'.Plain here := by
  intro way hway hstart
  obtain ⟨kind, hkind, hlink⟩ := h way hway hstart
  exact ⟨kind, hextends.kindAt hkind, hlink⟩

/-! ### Composing walks -/

theorem Walk.trans {xs ys middle : List Bytes} (h : Walk tree here xs middle)
    (h' : Walk tree middle ys there) : Walk tree here (xs ++ ys) there := by
  induction h with
  | done here => exact h'
  | stay hpiece hdirectory _ ih => exact .stay hpiece hdirectory (ih h')
  | up hdirectory _ ih => exact .up hdirectory (ih h')
  | enter hkind hlink _ ih => exact .enter hkind hlink (ih h')
  | follow hkind _ ih =>
    have hrest := ih h'
    rw [List.append_assoc] at hrest
    exact .follow hkind hrest

/-- A walk can be interrupted anywhere between two pieces. -/
theorem Walk.split {pieces : List Bytes} (h : Walk tree here pieces there) :
    ∀ xs ys, pieces = xs ++ ys → ∃ middle, Walk tree here xs middle ∧ Walk tree middle ys there := by
  induction h with
  | done here =>
    intro xs ys hsplit
    obtain ⟨rfl, rfl⟩ := List.append_eq_nil_iff.mp hsplit.symm
    exact ⟨here, .done here, .done here⟩
  | @stay here piece rest there hpiece hdirectory hrest ih =>
    intro xs ys hsplit
    cases xs with
    | nil =>
      subst hsplit
      exact ⟨here, .done here, .stay hpiece hdirectory hrest⟩
    | cons x xs =>
      obtain ⟨rfl, htail⟩ := List.cons.inj hsplit
      obtain ⟨middle, hfirst, hlast⟩ := ih xs ys htail
      exact ⟨middle, .stay hpiece hdirectory hfirst, hlast⟩
  | @up here rest there hdirectory hrest ih =>
    intro xs ys hsplit
    cases xs with
    | nil =>
      subst hsplit
      exact ⟨here, .done here, .up hdirectory hrest⟩
    | cons x xs =>
      obtain ⟨rfl, htail⟩ := List.cons.inj hsplit
      obtain ⟨middle, hfirst, hlast⟩ := ih xs ys htail
      exact ⟨middle, .up hdirectory hfirst, hlast⟩
  | @enter here name rest there kind hkind hlink hrest ih =>
    intro xs ys hsplit
    cases xs with
    | nil =>
      subst hsplit
      exact ⟨here, .done here, .enter hkind hlink hrest⟩
    | cons x xs =>
      obtain ⟨rfl, htail⟩ := List.cons.inj hsplit
      obtain ⟨middle, hfirst, hlast⟩ := ih xs ys htail
      exact ⟨middle, .enter hkind hlink hfirst, hlast⟩
  | @follow here name text rest there hkind hrest ih =>
    intro xs ys hsplit
    cases xs with
    | nil =>
      subst hsplit
      exact ⟨here, .done here, .follow hkind hrest⟩
    | cons x xs =>
      obtain ⟨rfl, htail⟩ := List.cons.inj hsplit
      obtain ⟨middle, hfirst, hlast⟩ := ih (text.splitOn slash ++ xs) ys (by
        rw [List.append_assoc]
        exact congrArg _ htail)
      exact ⟨middle, .follow hkind hfirst, hlast⟩

theorem walk_append {xs ys : List Bytes} :
    Walk tree here (xs ++ ys) there ↔ ∃ middle, Walk tree here xs middle ∧
      Walk tree middle ys there := by
  constructor
  · intro h
    exact h.split xs ys rfl
  · rintro ⟨middle, hfirst, hlast⟩
    exact hfirst.trans hlast

/-! ### Where a walk leads -/

theorem walk_enter {name : Bytes} {rest : List Bytes} {kind : FileKind}
    (hkind : tree.kindAt (here ++ [name]) = some kind) (hlink : ∀ text, kind ≠ .symlink text) :
    Walk tree here (name :: rest) there ↔ Walk tree (here ++ [name]) rest there := by
  have hproper := proper_of_kindAt hkind
  constructor
  · intro h
    cases h with
    | stay hpiece _ _ => exact absurd hpiece (not_or.mpr ⟨hproper.1, hproper.2.1⟩)
    | up _ _ => exact absurd rfl hproper.2.2.1
    | enter _ _ hrest => exact hrest
    | follow hkind' _ => exact absurd (Option.some.inj (hkind.symm.trans hkind')) (hlink _)
  · exact .enter hkind hlink

theorem walk_follow {name text : Bytes} {rest : List Bytes}
    (hkind : tree.kindAt (here ++ [name]) = some (.symlink text)) :
    Walk tree here (name :: rest) there ↔
      Walk tree (linkStart here text) (text.splitOn slash ++ rest) there := by
  have hproper := proper_of_kindAt hkind
  constructor
  · intro h
    cases h with
    | stay hpiece _ _ => exact absurd hpiece (not_or.mpr ⟨hproper.1, hproper.2.1⟩)
    | up _ _ => exact absurd rfl hproper.2.2.1
    | enter hkind' hlink' _ => exact absurd (Option.some.inj (hkind'.symm.trans hkind)) (hlink' _)
    | follow hkind' hrest =>
      obtain rfl := FileKind.symlink.inj (Option.some.inj (hkind.symm.trans hkind'))
      exact hrest
  · exact .follow hkind

/-- The tree settles where a walk leads. -/
theorem Walk.unique {pieces there' : List Bytes} (h : Walk tree here pieces there)
    (h' : Walk tree here pieces there') : there = there' := by
  induction h generalizing there' with
  | done here =>
    cases h'
    rfl
  | stay hpiece _ _ ih =>
    cases h' with
    | stay _ _ hrest => exact ih hrest
    | up _ _ => exact absurd hpiece (by decide)
    | enter hkind _ _ =>
      have hproper := proper_of_kindAt hkind
      exact absurd hpiece (not_or.mpr ⟨hproper.1, hproper.2.1⟩)
    | follow hkind _ =>
      have hproper := proper_of_kindAt hkind
      exact absurd hpiece (not_or.mpr ⟨hproper.1, hproper.2.1⟩)
  | up _ _ ih =>
    cases h' with
    | stay hpiece _ _ => exact absurd hpiece (by decide)
    | up _ hrest => exact ih hrest
    | enter hkind _ _ => exact absurd rfl (proper_of_kindAt hkind).2.2.1
    | follow hkind _ => exact absurd rfl (proper_of_kindAt hkind).2.2.1
  | enter hkind hlink _ ih => exact ih ((walk_enter hkind hlink).mp h')
  | follow hkind _ ih => exact ih ((walk_follow hkind).mp h')

theorem walk_plain {position : List Bytes} (h : tree.Plain position) :
    Walk tree [] position position := by
  induction position using List.reverseRecOn with
  | nil => exact .done []
  | append_singleton here name ih =>
    have hstart := ih (h.start (List.prefix_append _ _))
    obtain ⟨kind, hkind, hlink⟩ := h (here ++ [name]) (by simp) (List.prefix_refl _)
    exact hstart.trans (.enter hkind hlink (.done _))

/-- Below a plain directory, a link is walked as its text. -/
theorem walk_link {name text : Bytes} {rest : List Bytes} (h : tree.Plain here)
    (hkind : tree.kindAt (here ++ [name]) = some (.symlink text)) :
    Walk tree [] (here ++ name :: rest) there ↔
      Walk tree (linkStart here text) (text.splitOn slash ++ rest) there := by
  rw [walk_append]
  constructor
  · rintro ⟨middle, hfirst, hlast⟩
    obtain rfl := hfirst.unique (walk_plain h)
    exact (walk_follow hkind).mp hlast
  · intro hrest
    exact ⟨here, walk_plain h, .follow hkind hrest⟩

end Foundations.FileTree
