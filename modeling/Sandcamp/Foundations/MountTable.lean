import Sandcamp.Foundations.PathWalk

/-!
# Mounts over a tree

A mount lies on a place and shows a tree, or a single file, instead of what is there. A
place is a position in the tree below (number 0) or in what one of the mounts shows
(numbered from 1 in the order they were made). A walk crosses into what is mounted where
it arrives, `..` crosses back out, and the text of a link that is absolute starts at the
top: at what is mounted on the root of the tree below. A walk of the tree that never looks
past a mount goes the same way in both, and no walk from the top comes to a place that
lies at a mount or below one.
-/

namespace Foundations
open UnixPath

/-- What a mount shows. -/
inductive Shown (α : Type) where
  | directory (tree : FileTree α)
  | file (node : Node α)

def Shown.lookup {α : Type} : Shown α → List Bytes → Option (Node α)
  | .directory tree, position => tree.lookup position
  | .file node, position => if position = [] then some node else none

abbrev Place := ℕ × List Bytes

structure MountTable (α : Type) where
  root : FileTree α
  mounts : List (Place × Shown α)

namespace MountTable

variable {α : Type}

def shown (table : MountTable α) : ℕ → Option (Shown α)
  | 0 => some (.directory table.root)
  | i + 1 => table.mounts[i]?.map Prod.snd

def lookup (table : MountTable α) (place : Place) : Option (Node α) :=
  (table.shown place.1).bind fun shown => shown.lookup place.2

def kindAt (table : MountTable α) (place : Place) : Option FileKind :=
  (table.lookup place).map Node.kind

/-- Into the mount of this number, if it lies here. -/
def into (here : Place) (mount : (Place × Shown α) × ℕ) : Place :=
  if here = mount.1.1 then (mount.2 + 1, []) else here

/-- Out of the mount of this number, from the top of what it shows. -/
def out (mount : (Place × Shown α) × ℕ) (here : Place) : Place :=
  if here = (mount.2 + 1, []) then mount.1.1 else here

/-- What lies on top at a place: a later mount never lies under an earlier one. -/
def cover (table : MountTable α) (here : Place) : Place := table.mounts.zipIdx.foldl into here

/-- The place that the mounts here lie on. -/
def uncover (table : MountTable α) (here : Place) : Place := table.mounts.zipIdx.foldr out here

/-- The directory that `..` leads to. -/
def above (table : MountTable α) (here : Place) : Place :=
  ((table.uncover here).1, (table.uncover here).2.dropLast)

/-- What lies on the root of the tree below. -/
def top (table : MountTable α) : Place := table.cover (0, [])

/-- Where the text of a link in this directory starts. -/
def linkStart (table : MountTable α) (here : Place) (text : Bytes) : Place :=
  if isAbsolute text then table.top else here

inductive Walk (table : MountTable α) : Place → List Bytes → Place → Prop
  | done (here : Place) : Walk table here [] here
  | stay {here : Place} {piece : Bytes} {rest : List Bytes} {there : Place} :
      piece = [] ∨ piece = dot → table.kindAt here = some .directory →
      Walk table here rest there → Walk table here (piece :: rest) there
  | up {here : Place} {rest : List Bytes} {there : Place} :
      table.kindAt here = some .directory → Walk table (table.cover (table.above here)) rest there →
      Walk table here (dotDot :: rest) there
  | enter {here : Place} {name : Bytes} {rest : List Bytes} {there : Place} {kind : FileKind} :
      table.kindAt (here.1, here.2 ++ [name]) = some kind → (∀ text, kind ≠ .symlink text) →
      Walk table (table.cover (here.1, here.2 ++ [name])) rest there →
      Walk table here (name :: rest) there
  | follow {here : Place} {name text : Bytes} {rest : List Bytes} {there : Place} :
      table.kindAt (here.1, here.2 ++ [name]) = some (.symlink text) →
      Walk table (table.linkStart here text) (text.splitOn slash ++ rest) there →
      Walk table here (name :: rest) there

/-- A mount lies on this place. -/
def Covered (table : MountTable α) (place : Place) : Prop := ∃ mount ∈ table.mounts, mount.1 = place

/-- One mount more. -/
def mount (table : MountTable α) (place : Place) (shown : Shown α) : MountTable α :=
  { table with mounts := table.mounts ++ [(place, shown)] }

/-- The tree behind a number, if it is one. -/
def treeOf (table : MountTable α) (number : ℕ) : Option (FileTree α) :=
  match table.shown number with
  | some (.directory tree) => some tree
  | _ => none

/-- Another tree in its place. -/
def setTree (table : MountTable α) (number : ℕ) (tree : FileTree α) : MountTable α :=
  match number with
  | 0 => { table with root := tree }
  | i + 1 =>
    { table with mounts := table.mounts.modify i fun mount => (mount.1, .directory tree) }

/-! ### Well-formed tables -/

/-- A mount lies on the tree below or on an earlier mount, and on a directory only if it
shows one. -/
structure Sound (table : MountTable α) : Prop where
  earlier : ∀ (i : ℕ) (mount : Place × Shown α), table.mounts[i]? = some mount → mount.1.1 ≤ i
  directories : ∀ mount ∈ table.mounts, table.kindAt mount.1 = some .directory →
    (mount.2.lookup []).map Node.kind = some .directory

theorem sound_empty (root : FileTree α) : Sound ⟨root, []⟩ where
  earlier i mount h := by
    rw [List.getElem?_nil] at h
    cases h
  directories mount hm := absurd hm List.not_mem_nil

variable {table : MountTable α} {here there place : Place}

theorem number_le {kind : FileKind} (h : table.kindAt place = some kind) :
    place.1 ≤ table.mounts.length := by
  obtain ⟨node, hnode, -⟩ := Option.map_eq_some_iff.mp h
  obtain ⟨shown, hshown, -⟩ := Option.bind_eq_some_iff.mp hnode
  cases hplace : place.1 with
  | zero => omega
  | succ i =>
    rw [hplace] at hshown
    obtain ⟨mount, hmount, -⟩ := Option.map_eq_some_iff.mp hshown
    obtain ⟨hlt, -⟩ := List.getElem?_eq_some_iff.mp hmount
    omega

theorem kindAt_mount (other : Place) (shown : Shown α) (h : place.1 ≤ table.mounts.length) :
    (table.mount other shown).kindAt place = table.kindAt place := by
  have hsame : (table.mount other shown).shown place.1 = table.shown place.1 := by
    cases hplace : place.1 with
    | zero => rfl
    | succ i =>
      have hlt : i < table.mounts.length := by omega
      show Option.map Prod.snd (table.mounts ++ [(other, shown)])[i]? = _
      rw [List.getElem?_append_left hlt]
      rfl
  unfold kindAt lookup
  rw [hsame]

theorem sound_mount {shown : Shown α} {kind : FileKind} (h : table.Sound)
    (hkind : table.kindAt place = some kind)
    (hdirectory : kind = .directory → (shown.lookup []).map Node.kind = some .directory) :
    (table.mount place shown).Sound := by
  have hplace := number_le hkind
  constructor
  · intro i mount hmount
    by_cases hlt : i < table.mounts.length
    · have hold : (table.mounts ++ [(place, shown)])[i]? = some mount := hmount
      rw [List.getElem?_append_left hlt] at hold
      exact h.earlier i mount hold
    · have hnew : (table.mounts ++ [(place, shown)])[i]? = some mount := hmount
      obtain ⟨hbound, -⟩ := List.getElem?_eq_some_iff.mp hnew
      rw [List.length_append, List.length_singleton] at hbound
      have hlast : i = table.mounts.length := by omega
      rw [hlast, List.getElem?_concat_length] at hnew
      rw [← Option.some.inj hnew, hlast]
      exact hplace
  · intro mount hm hthere
    rcases List.mem_append.mp hm with hold | hnew
    · obtain ⟨i, hlt, hmount⟩ := List.mem_iff_getElem.mp hold
      have hearlier := h.earlier i mount (List.getElem?_eq_some_iff.mpr ⟨hlt, hmount⟩)
      rw [kindAt_mount place shown (by omega)] at hthere
      exact h.directories mount hold hthere
    · obtain rfl := List.mem_singleton.mp hnew
      rw [kindAt_mount place shown hplace, hkind] at hthere
      exact hdirectory (Option.some.inj hthere)

/-! ### Changes to a tree -/

/-- The entries of the tree that are no links are in the tree below as they were. -/
def Kept (tree root : FileTree α) : Prop :=
  ∀ position node, tree.lookup position = some node → (∀ text, node.kind ≠ .symlink text) →
    root.lookup position = some node

theorem Kept.refl (tree : FileTree α) : Kept tree tree := fun _ _ h _ => h

theorem Kept.trans {tree middle root : FileTree α} (h : Kept tree middle) (h' : Kept middle root) :
    Kept tree root :=
  fun position node hnode hlink => h' position node (h position node hnode hlink) hlink

/-- Links may be gone or replaced, and there is no new directory. -/
structure Rewritten (tree tree' : FileTree α) : Prop where
  kept : Kept tree tree'
  directories : ∀ position, tree'.kindAt position = some .directory →
    tree.kindAt position = some .directory

theorem rewritten_removeLink (tree : FileTree α) (position : List Bytes) (text : Bytes)
    (h : tree.kindAt position = some (.symlink text)) :
    Rewritten tree (tree.removeLink position text h) where
  kept other node hnode hlink := by
    have hne : other ≠ position := by
      rintro rfl
      obtain ⟨found, hfound, hkind⟩ := Option.map_eq_some_iff.mp h
      rw [hnode] at hfound
      obtain rfl := Option.some.inj hfound
      exact hlink text hkind
    show (if other = position then none else tree.lookup other) = some node
    rw [if_neg hne]
    exact hnode
  directories other hkind := by
    have hcases : Option.map Node.kind (if other = position then none else tree.lookup other) =
        some .directory := hkind
    by_cases hother : other = position
    · rw [if_pos hother] at hcases
      cases hcases
    · rw [if_neg hother] at hcases
      exact hcases

theorem rewritten_create {tree tree' : FileTree α} {parent : List Bytes} {name : Bytes}
    {node : Node α} (hnode : node.kind ≠ .directory)
    (h : tree.create parent name node = some tree') : Rewritten tree tree' := by
  unfold FileTree.create at h
  by_cases hvacant : tree.Vacant parent name
  · rw [dif_pos hvacant] at h
    obtain rfl := Option.some.inj h
    constructor
    · intro position found hfound _
      exact FileTree.extends_add tree parent name node hvacant position found hfound
    · intro position hkind
      have hcases : Option.map Node.kind (if position = parent ++ [name] then some node
          else tree.lookup position) = some .directory := hkind
      by_cases hposition : position = parent ++ [name]
      · rw [if_pos hposition] at hcases
        exact absurd (Option.some.inj hcases) hnode
      · rw [if_neg hposition] at hcases
        exact hcases
  · rw [dif_neg hvacant] at h
    cases h

theorem mounts_setTree {number i : ℕ} {tree : FileTree α} {mount : Place × Shown α}
    (h : (table.setTree number tree).mounts[i]? = some mount) :
    ∃ before, table.mounts[i]? = some before ∧ before.1 = mount.1 ∧
      (mount.2 = before.2 ∨ mount.2 = .directory tree) := by
  cases number with
  | zero => exact ⟨mount, h, rfl, Or.inl rfl⟩
  | succ j =>
    have hmodify : (table.mounts.modify j fun mount => (mount.1, .directory tree))[i]? =
        some mount := h
    rw [List.getElem?_modify] at hmodify
    obtain ⟨before, hbefore, hmount⟩ := Option.map_eq_some_iff.mp hmodify
    refine ⟨before, hbefore, ?_⟩
    by_cases hsame : j = i
    · rw [if_pos hsame] at hmount
      rw [← hmount]
      exact ⟨rfl, Or.inr rfl⟩
    · rw [if_neg hsame] at hmount
      rw [← hmount]
      exact ⟨rfl, Or.inl rfl⟩

theorem shown_of_treeOf {number : ℕ} {tree : FileTree α} (h : table.treeOf number = some tree) :
    table.shown number = some (.directory tree) := by
  unfold treeOf at h
  split at h
  · rename_i found hfound
    rw [hfound, Option.some.inj h]
  · cases h

theorem shown_setTree {number : ℕ} {tree tree' : FileTree α}
    (htree : table.treeOf number = some tree) (i : ℕ) :
    (table.setTree number tree').shown i =
      if i = number then some (.directory tree') else table.shown i := by
  have hthere := shown_of_treeOf htree
  cases number with
  | zero => cases i <;> rfl
  | succ j =>
    obtain ⟨mount, hmount, -⟩ := Option.map_eq_some_iff.mp hthere
    cases i with
    | zero => rfl
    | succ i =>
      show Option.map Prod.snd (table.mounts.modify j fun mount => (mount.1, .directory tree'))[i]? = _
      rw [List.getElem?_modify]
      by_cases hsame : i = j
      · subst hsame
        rw [if_pos rfl, hmount]
        simp
      · rw [if_neg fun heq => hsame (Nat.succ.inj heq)]
        have hother : ¬j = i := fun heq => hsame heq.symm
        simp only [if_neg hother]
        show _ = Option.map Prod.snd table.mounts[i]?
        cases table.mounts[i]? <;> rfl

theorem directory_setTree {number : ℕ} {tree tree' : FileTree α}
    (htree : table.treeOf number = some tree) (h : Rewritten tree tree')
    (hkind : (table.setTree number tree').kindAt place = some .directory) :
    table.kindAt place = some .directory := by
  have hthere := shown_of_treeOf htree
  unfold kindAt lookup at hkind ⊢
  rw [shown_setTree htree] at hkind
  by_cases hsame : place.1 = number
  · rw [if_pos hsame] at hkind
    rw [hsame, hthere]
    exact h.directories place.2 hkind
  · rw [if_neg hsame] at hkind
    exact hkind

theorem kept_setTree {number : ℕ} {start tree tree' : FileTree α}
    (hkept : Kept start table.root) (htree : table.treeOf number = some tree)
    (h : Rewritten tree tree') : Kept start (table.setTree number tree').root := by
  cases number with
  | zero =>
    have hroot : table.root = tree := Option.some.inj htree
    rw [hroot] at hkept
    exact hkept.trans h.kept
  | succ i => exact hkept

theorem sound_setTree {number : ℕ} {tree tree' : FileTree α} (hsound : table.Sound)
    (htree : table.treeOf number = some tree) (h : Rewritten tree tree') :
    (table.setTree number tree').Sound := by
  constructor
  · intro i mount hmount
    obtain ⟨before, hbefore, hplace, -⟩ := mounts_setTree hmount
    rw [← hplace]
    exact hsound.earlier i before hbefore
  · intro mount hm hkind
    obtain ⟨i, hlt, hmount⟩ := List.mem_iff_getElem.mp hm
    obtain ⟨before, hbefore, hplace, hshown⟩ :=
      mounts_setTree (List.getElem?_eq_some_iff.mpr ⟨hlt, hmount⟩)
    rcases hshown with hsame | hnew
    · rw [hsame]
      apply hsound.directories before (List.mem_of_getElem? hbefore)
      rw [hplace]
      exact directory_setTree htree h hkind
    · rw [hnew]
      exact tree'.root

/-! ### In and out of mounts -/

theorem foldl_into_snoc (before : List (Place × Shown α)) (last : Place × Shown α) (here : Place) :
    (before ++ [last]).zipIdx.foldl into here =
      if before.zipIdx.foldl into here = last.1 then (before.length + 1, [])
      else before.zipIdx.foldl into here := by
  rw [List.zipIdx_append, List.foldl_append, Nat.zero_add]
  rfl

theorem foldr_out_snoc (before : List (Place × Shown α)) (last : Place × Shown α) (here : Place) :
    (before ++ [last]).zipIdx.foldr out here =
      before.zipIdx.foldr out (if here = (before.length + 1, []) then last.1 else here) := by
  rw [List.zipIdx_append, List.foldr_append, Nat.zero_add]
  rfl

/-- In a sound table, what lies on top lies under no mount. -/
theorem cover_uncovered (h : table.Sound) (here : Place) : ¬table.Covered (table.cover here) := by
  have hall : ∀ mounts : List (Place × Shown α), mounts <+: table.mounts →
      ∀ mount ∈ mounts, mount.1 ≠ mounts.zipIdx.foldl into here := by
    intro mounts
    induction mounts using List.reverseRecOn with
    | nil =>
      intro _ mount hm
      exact absurd hm List.not_mem_nil
    | append_singleton before last ih =>
      intro hprefix mount hm
      have hbefore := ih ((List.prefix_append before [last]).trans hprefix)
      have hearlier : ∀ (i : ℕ) (entry : Place × Shown α),
          (before ++ [last])[i]? = some entry → entry.1.1 ≤ i := by
        intro i entry hentry
        apply h.earlier i entry
        obtain ⟨rest, hrest⟩ := hprefix
        obtain ⟨hlt, -⟩ := List.getElem?_eq_some_iff.mp hentry
        rw [← hrest, List.getElem?_append_left hlt]
        exact hentry
      rw [foldl_into_snoc]
      by_cases hlast : before.zipIdx.foldl into here = last.1
      · rw [if_pos hlast]
        obtain ⟨i, hlt, hmount⟩ := List.mem_iff_getElem.mp hm
        have hle := hearlier i mount (List.getElem?_eq_some_iff.mpr ⟨hlt, hmount⟩)
        rw [List.length_append, List.length_singleton] at hlt
        intro heq
        rw [heq] at hle
        simp only at hle
        omega
      · rw [if_neg hlast]
        rcases List.mem_append.mp hm with hm | hm
        · exact hbefore mount hm
        · rw [List.mem_singleton.mp hm]
          exact fun heq => hlast heq.symm
  rintro ⟨mount, hm, hplace⟩
  exact hall table.mounts (List.prefix_refl _) mount hm hplace

/-- What holds of a place and passes from each mount point to what is mounted there holds of what
lies on top. -/
theorem cover_induction {P : Place → Prop}
    (hstep : ∀ (i : ℕ) (mount : Place × Shown α), table.mounts[i]? = some mount → P mount.1 →
      P (i + 1, [])) (h : P here) : P (table.cover here) := by
  have hall : ∀ mounts : List ((Place × Shown α) × ℕ),
      (∀ mount ∈ mounts, table.mounts[mount.2]? = some mount.1) →
      ∀ start, P start → P (mounts.foldl into start) := by
    intro mounts
    induction mounts with
    | nil => exact fun _ start hstart => hstart
    | cons first rest ih =>
      intro hmounts start hstart
      rw [List.foldl_cons]
      apply ih fun mount hm => hmounts mount (List.mem_cons_of_mem _ hm)
      unfold into
      by_cases hhere : start = first.1.1
      · rw [if_pos hhere]
        rw [hhere] at hstart
        exact hstep first.2 first.1 (hmounts first List.mem_cons_self) hstart
      · rw [if_neg hhere]
        exact hstart
  apply hall _ _ here h
  intro mount hm
  exact List.mem_zipIdx_iff_getElem?.mp hm

theorem cover_of_uncovered (h : ¬table.Covered here) : table.cover here = here := by
  apply cover_induction (P := fun place => place = here)
  · rintro i mount hmount rfl
    exact absurd ⟨mount, List.mem_of_getElem? hmount, rfl⟩ h
  · rfl

/-- The mounts on a place in the tree below are left the way they were entered. -/
theorem uncover_cover (table : MountTable α) (position : List Bytes) :
    table.uncover (table.cover (0, position)) = (0, position) := by
  have hall : ∀ mounts : List (Place × Shown α),
      (mounts.zipIdx.foldl into (0, position)).1 ≤ mounts.length ∧
        mounts.zipIdx.foldr out (mounts.zipIdx.foldl into (0, position)) = (0, position) := by
    intro mounts
    induction mounts using List.reverseRecOn with
    | nil => exact ⟨Nat.le_refl 0, rfl⟩
    | append_singleton before last ih =>
      obtain ⟨hnumber, hback⟩ := ih
      rw [foldl_into_snoc, foldr_out_snoc, List.length_append, List.length_singleton]
      by_cases hlast : before.zipIdx.foldl into (0, position) = last.1
      · rw [if_pos hlast, if_pos rfl, ← hlast]
        exact ⟨Nat.le_refl _, hback⟩
      · rw [if_neg hlast]
        have hne : before.zipIdx.foldl into (0, position) ≠ (before.length + 1, []) := by
          intro heq
          rw [heq] at hnumber
          simp only at hnumber
          omega
        rw [if_neg hne]
        exact ⟨by omega, hback⟩
  exact (hall table.mounts).2

theorem cover_directory (h : table.Sound) (hkind : table.kindAt here = some .directory) :
    table.kindAt (table.cover here) = some .directory := by
  apply cover_induction (P := fun place => table.kindAt place = some .directory) _ hkind
  intro i mount hmount hpoint
  have hshown := h.directories mount (List.mem_of_getElem? hmount) hpoint
  show Option.map Node.kind (Option.bind (Option.map Prod.snd table.mounts[i]?) _) = _
  rw [hmount]
  exact hshown

/-! ### Walks that look past no mount -/

/-- A walk of the tree that ends at no mount, looks up no name in a directory that a mount lies
on, and follows only links that are still there. -/
inductive ClearWalk (tree : FileTree α) (table : MountTable α) :
    List Bytes → List Bytes → List Bytes → Prop
  | done {here : List Bytes} : ¬table.Covered (0, here) → ClearWalk tree table here [] here
  | stay {here : List Bytes} {piece : Bytes} {rest there : List Bytes} :
      piece = [] ∨ piece = dot → tree.kindAt here = some .directory →
      ClearWalk tree table here rest there → ClearWalk tree table here (piece :: rest) there
  | up {here rest there : List Bytes} :
      tree.kindAt here = some .directory → ClearWalk tree table here.dropLast rest there →
      ClearWalk tree table here (dotDot :: rest) there
  | enter {here : List Bytes} {name : Bytes} {rest there : List Bytes} {kind : FileKind} :
      ¬table.Covered (0, here) → tree.kindAt (here ++ [name]) = some kind →
      (∀ text, kind ≠ .symlink text) → ClearWalk tree table (here ++ [name]) rest there →
      ClearWalk tree table here (name :: rest) there
  | follow {here : List Bytes} {name text : Bytes} {rest there : List Bytes} :
      ¬table.Covered (0, here) → tree.kindAt (here ++ [name]) = some (.symlink text) →
      table.root.kindAt (here ++ [name]) = some (.symlink text) →
      ClearWalk tree table (FileTree.linkStart here text) (text.splitOn slash ++ rest) there →
      ClearWalk tree table here (name :: rest) there

/-- A place that a walk may have come to where the walk of the tree is here. -/
structure Shows (tree : FileTree α) (table : MountTable α) (here : List Bytes) (place : Place) :
    Prop where
  uncovered : ¬table.Covered (0, here) → place = (0, here)
  above : table.above place = (0, here.dropLast)
  directory : tree.kindAt here = some .directory → table.kindAt place = some .directory

variable {tree : FileTree α}

theorem Kept.kindAt (h : Kept tree table.root) {position : List Bytes} {kind : FileKind}
    (hkind : tree.kindAt position = some kind) (hlink : ∀ text, kind ≠ .symlink text) :
    table.kindAt (0, position) = some kind := by
  obtain ⟨node, hnode, rfl⟩ := Option.map_eq_some_iff.mp hkind
  have hroot := h position node hnode hlink
  show (table.root.lookup position).map Node.kind = _
  rw [hroot]
  rfl

theorem shows_cover (hsound : table.Sound) (hkept : Kept tree table.root) (here : List Bytes) :
    Shows tree table here (table.cover (0, here)) where
  uncovered h := cover_of_uncovered h
  above := by
    unfold above
    rw [uncover_cover]
  directory h := cover_directory hsound (hkept.kindAt h (by simp))

theorem shows_top (hsound : table.Sound) (hkept : Kept tree table.root) :
    Shows tree table [] table.top := shows_cover hsound hkept []

/-- Over the mounts it goes the same way. -/
theorem ClearWalk.walk {here pieces there : List Bytes} (h : ClearWalk tree table here pieces there)
    (hsound : table.Sound) (hkept : Kept tree table.root) {place : Place}
    (hplace : Shows tree table here place) : table.Walk place pieces (0, there) := by
  induction h generalizing place with
  | done hclear =>
    rw [hplace.uncovered hclear]
    exact .done _
  | stay hpiece hdirectory _ ih => exact .stay hpiece (hplace.directory hdirectory) (ih hplace)
  | up hdirectory _ ih =>
    apply Walk.up (hplace.directory hdirectory)
    rw [hplace.above]
    exact ih (shows_cover hsound hkept _)
  | enter hclear hkind hlink _ ih =>
    obtain rfl := hplace.uncovered hclear
    exact .enter (hkept.kindAt hkind hlink) hlink (ih (shows_cover hsound hkept _))
  | @follow here name text rest there hclear hkind hroot _ ih =>
    obtain rfl := hplace.uncovered hclear
    have hstart : Shows tree table (FileTree.linkStart here text)
        (table.linkStart (0, here) text) := by
      unfold FileTree.linkStart linkStart
      by_cases habsolute : isAbsolute text = true
      · rw [if_pos habsolute, if_pos habsolute]
        exact shows_top hsound hkept
      · rw [if_neg habsolute, if_neg habsolute]
        exact hplace
    exact .follow hroot (ih hstart)

theorem ClearWalk.plain {here pieces there : List Bytes}
    (h : ClearWalk tree table here pieces there) : tree.Walk here pieces there := by
  induction h with
  | done _ => exact .done _
  | stay hpiece hdirectory _ ih => exact .stay hpiece hdirectory ih
  | up hdirectory _ ih => exact .up hdirectory ih
  | enter _ hkind hlink _ ih => exact .enter hkind hlink ih
  | follow _ hkind _ _ ih => exact .follow hkind ih

/-! ### What mounts hide -/

/-- No mount lies on a directory on the way to this place. -/
inductive Exposed (table : MountTable α) : Place → Prop
  | root : Exposed table (0, [])
  | child {number : ℕ} {position : List Bytes} (name : Bytes) : Exposed table (number, position) →
      ¬table.Covered (number, position) → Exposed table (number, position ++ [name])
  | mounted {i : ℕ} {mount : Place × Shown α} : table.mounts[i]? = some mount →
      Exposed table mount.1 → Exposed table (i + 1, [])

theorem exposed_cover (h : table.Exposed here) : table.Exposed (table.cover here) :=
  cover_induction (fun _ _ hmount hpoint => .mounted hmount hpoint) h

theorem exposed_point {i : ℕ} {mount : Place × Shown α} (h : table.Exposed (i + 1, []))
    (hmount : table.mounts[i]? = some mount) : table.Exposed mount.1 := by
  generalize hplace : ((i + 1, []) : Place) = place at h
  cases h with
  | root => simp at hplace
  | child name _ _ => simp at hplace
  | mounted hfound hpoint =>
    obtain ⟨hnumber, -⟩ := Prod.mk.inj hplace
    obtain rfl := Nat.succ.inj hnumber
    rw [Option.some.inj (hmount.symm.trans hfound)]
    exact hpoint

theorem exposed_uncover (h : table.Exposed here) : table.Exposed (table.uncover here) := by
  have hall : ∀ mounts : List ((Place × Shown α) × ℕ),
      (∀ mount ∈ mounts, table.mounts[mount.2]? = some mount.1) →
      table.Exposed (mounts.foldr out here) := by
    intro mounts
    induction mounts with
    | nil => exact fun _ => h
    | cons first rest ih =>
      intro hmounts
      have hrest := ih fun mount hm => hmounts mount (List.mem_cons_of_mem _ hm)
      have hstep : (first :: rest).foldr out here =
          if rest.foldr out here = (first.2 + 1, []) then first.1.1 else rest.foldr out here := rfl
      rw [hstep]
      by_cases hhere : rest.foldr out here = (first.2 + 1, [])
      · rw [if_pos hhere]
        rw [hhere] at hrest
        exact exposed_point hrest (hmounts first List.mem_cons_self)
      · rw [if_neg hhere]
        exact hrest
  apply hall
  intro mount hm
  exact List.mem_zipIdx_iff_getElem?.mp hm

theorem exposed_child {number : ℕ} {position : List Bytes} {name : Bytes}
    (h : table.Exposed (number, position ++ [name])) :
    table.Exposed (number, position) ∧ ¬table.Covered (number, position) := by
  generalize hplace : ((number, position ++ [name]) : Place) = place at h
  cases h with
  | root => simp at hplace
  | child other hbefore huncovered =>
    obtain ⟨hnumber, hposition⟩ := Prod.mk.inj hplace
    obtain ⟨hsame, -⟩ := List.append_inj' hposition rfl
    rw [hnumber, hsame]
    exact ⟨hbefore, huncovered⟩
  | mounted _ _ => simp at hplace

theorem exposed_above (h : table.Exposed here) : table.Exposed (table.above here) := by
  have hpoint := exposed_uncover h
  unfold above
  rcases List.eq_nil_or_concat' (table.uncover here).2 with hnil | ⟨position, name, hlast⟩
  · have hsame : ((table.uncover here).1, (table.uncover here).2.dropLast) = table.uncover here := by
      rw [hnil]
      exact Prod.ext rfl hnil.symm
    rw [hsame]
    exact hpoint
  · have hsplit : table.uncover here = ((table.uncover here).1, position ++ [name]) :=
      Prod.ext rfl hlast
    rw [hsplit] at hpoint
    rw [hlast, List.dropLast_concat]
    exact (exposed_child hpoint).1

theorem Walk.exposed {pieces : List Bytes} (h : table.Walk here pieces there)
    (hsound : table.Sound) (hhere : table.Exposed here) (huncovered : ¬table.Covered here) :
    table.Exposed there ∧ ¬table.Covered there := by
  induction h with
  | done here => exact ⟨hhere, huncovered⟩
  | stay _ _ _ ih => exact ih hhere huncovered
  | up _ _ ih => exact ih (exposed_cover (exposed_above hhere)) (cover_uncovered hsound _)
  | enter _ _ _ ih =>
    exact ih (exposed_cover (.child _ hhere huncovered)) (cover_uncovered hsound _)
  | @follow here name text rest there _ _ ih =>
    unfold linkStart at ih
    by_cases habsolute : isAbsolute text = true
    · rw [if_pos habsolute] at ih
      exact ih (exposed_cover .root) (cover_uncovered hsound _)
    · rw [if_neg habsolute] at ih
      exact ih hhere huncovered

/-- A place in the tree below that lies at a mount, or below one, cannot be walked to. -/
theorem Walk.not_covered {pieces position : List Bytes}
    (h : table.Walk table.top pieces (0, position)) (hsound : table.Sound) (way : List Bytes)
    (hway : way <+: position) : ¬table.Covered (0, way) := by
  have hstart : table.Exposed table.top := exposed_cover .root
  obtain ⟨hexposed, huncovered⟩ := h.exposed hsound hstart (cover_uncovered hsound _)
  clear h
  induction position using List.reverseRecOn with
  | nil =>
    rw [List.prefix_nil.mp hway]
    exact huncovered
  | append_singleton position name ih =>
    rcases List.prefix_concat_iff.mp hway with rfl | hbefore
    · exact huncovered
    · obtain ⟨hexposed', huncovered'⟩ := exposed_child hexposed
      exact ih hbefore hexposed' huncovered'

/-- Where there is no link on the way, a position is walked to exactly when no mount lies on
it or on a directory above it. -/
theorem walk_iff_uncovered {position : List Bytes} (hsound : table.Sound)
    (hkept : Kept tree table.root) (hplain : tree.Plain position) :
    table.Walk table.top position (0, position) ↔
      ∀ way, way <+: position → ¬table.Covered (0, way) := by
  constructor
  · exact fun h way hway => h.not_covered hsound way hway
  · intro huncovered
    have hclear : ∀ here rest, here ++ rest = position → ClearWalk tree table here rest position := by
      intro here rest
      induction rest generalizing here with
      | nil =>
        intro hend
        rw [List.append_nil] at hend
        rw [hend]
        exact .done (huncovered position (List.prefix_refl _))
      | cons name rest ih =>
        intro hend
        have hnext : (here ++ [name]) ++ rest = position := by rw [← hend]; simp
        have hhere : ¬table.Covered (0, here) := huncovered here ⟨name :: rest, hend⟩
        obtain ⟨kind, hkind, hlink⟩ := hplain (here ++ [name]) (by simp) ⟨rest, hnext⟩
        exact .enter hhere hkind hlink (ih (here ++ [name]) hnext)
    exact (hclear [] position rfl).walk hsound hkept (shows_top hsound hkept)

end MountTable

end Foundations
