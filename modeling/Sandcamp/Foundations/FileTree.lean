import Mathlib.Data.List.Induction
import Sandcamp.Foundations.UnixPath

/-!
# Trees of directories, files and symbolic links

A tree says what lies at each position, a position being the list of names below
the root. Every entry lies in a directory and has a proper name; symbolic links
hold any text, and an entry carries attributes of a type of its own. A tree grows
by new entries: `Extends` is what everything that was found once relies on.
-/

namespace Foundations
open UnixPath

inductive FileKind where
  | directory
  | regular (contents : Bytes)
  | symlink (text : Bytes)
  | other
  deriving DecidableEq, Repr

structure Node (α : Type) where
  kind : FileKind
  attributes : α
  deriving DecidableEq, Repr

structure FileTree (α : Type) where
  lookup : List Bytes → Option (Node α)
  root : (lookup []).map Node.kind = some .directory
  parents : ∀ (position : List Bytes) (name : Bytes), (lookup (position ++ [name])).isSome →
    (lookup position).map Node.kind = some .directory
  proper : ∀ (position : List Bytes) (name : Bytes), (lookup (position ++ [name])).isSome →
    ProperName name

namespace FileTree

variable {α : Type}

def kindAt (tree : FileTree α) (position : List Bytes) : Option FileKind :=
  (tree.lookup position).map Node.kind

/-- An entry of this name can be made in this directory. -/
def Vacant (tree : FileTree α) (parent : List Bytes) (name : Bytes) : Prop :=
  tree.kindAt parent = some .directory ∧ (tree.lookup (parent ++ [name])).isNone ∧ ProperName name

instance (tree : FileTree α) (parent : List Bytes) (name : Bytes) :
    Decidable (tree.Vacant parent name) :=
  inferInstanceAs (Decidable (_ ∧ _ ∧ _))

/-- Nothing lies below a vacant entry. -/
theorem lookup_below_vacant (tree : FileTree α) (position : List Bytes) (below : Bytes)
    (h : (tree.lookup position).isNone) : ¬(tree.lookup (position ++ [below])).isSome := by
  intro hbelow
  have hdir := tree.parents position below hbelow
  rw [Option.isNone_iff_eq_none.mp h] at hdir
  cases hdir

def add (tree : FileTree α) (parent : List Bytes) (name : Bytes) (node : Node α)
    (h : tree.Vacant parent name) : FileTree α where
  lookup position := if position = parent ++ [name] then some node else tree.lookup position
  root := by
    rw [if_neg (by simp)]
    exact tree.root
  parents position child hfound := by
    have hself : position ≠ parent ++ [name] := by
      rintro rfl
      rw [if_neg (by simp)] at hfound
      exact lookup_below_vacant tree _ child h.2.1 hfound
    rw [if_neg hself]
    split_ifs at hfound with hnew
    · rw [(List.append_inj' hnew rfl).1]
      exact h.1
    · exact tree.parents position child hfound
  proper position child hfound := by
    split_ifs at hfound with hnew
    · have hname : child = name := List.singleton_inj.mp (List.append_inj' hnew rfl).2
      rw [hname]
      exact h.2.2
    · exact tree.proper position child hfound

/-- A new entry, where there is room for it. -/
def create (tree : FileTree α) (parent : List Bytes) (name : Bytes) (node : Node α) :
    Option (FileTree α) :=
  if h : tree.Vacant parent name then some (tree.add parent name node h) else none

/-- The attributes of one entry are changed. -/
def setAttributes (tree : FileTree α) (position : List Bytes) (f : α → α) : FileTree α where
  lookup p := if p = position then (tree.lookup p).map fun node => ⟨node.kind, f node.attributes⟩
    else tree.lookup p
  root := by
    have hroot := tree.root
    split_ifs with h
    · rw [Option.map_map]
      exact hroot
    · exact hroot
  parents p name hfound := by
    have hold : (tree.lookup (p ++ [name])).isSome := by
      split_ifs at hfound with h
      · rwa [Option.isSome_map] at hfound
      · exact hfound
    have hdir := tree.parents p name hold
    split_ifs with h
    · rw [Option.map_map]
      exact hdir
    · exact hdir
  proper p name hfound := by
    have hold : (tree.lookup (p ++ [name])).isSome := by
      split_ifs at hfound with h
      · rwa [Option.isSome_map] at hfound
      · exact hfound
    exact tree.proper p name hold

/-- A symbolic link is taken out. -/
def removeLink (tree : FileTree α) (position : List Bytes) (text : Bytes)
    (h : tree.kindAt position = some (.symlink text)) : FileTree α where
  lookup p := if p = position then none else tree.lookup p
  root := by
    have hne : [] ≠ position := by
      rintro rfl
      have hroot : tree.kindAt [] = some .directory := tree.root
      rw [hroot] at h
      cases h
    rw [if_neg hne]
    exact tree.root
  parents p name hfound := by
    have hold : (tree.lookup (p ++ [name])).isSome := by
      split_ifs at hfound
      · cases hfound
      · exact hfound
    have hdir : tree.kindAt p = some .directory := tree.parents p name hold
    have hne : p ≠ position := by
      rintro rfl
      rw [hdir] at h
      cases h
    rw [if_neg hne]
    exact hdir
  proper p name hfound := by
    split_ifs at hfound
    · cases hfound
    · exact tree.proper p name hfound

/-- Everything the first tree holds is in the second one. -/
def Extends (tree tree' : FileTree α) : Prop :=
  ∀ position node, tree.lookup position = some node → tree'.lookup position = some node

theorem Extends.refl (tree : FileTree α) : tree.Extends tree := fun _ _ h => h

theorem Extends.trans {tree tree' tree'' : FileTree α} (h : tree.Extends tree')
    (h' : tree'.Extends tree'') : tree.Extends tree'' :=
  fun position node hfound => h' position node (h position node hfound)

theorem Extends.kindAt {tree tree' : FileTree α} (h : tree.Extends tree') {position : List Bytes}
    {kind : FileKind} (hkind : tree.kindAt position = some kind) :
    tree'.kindAt position = some kind := by
  unfold FileTree.kindAt at hkind ⊢
  cases hnode : tree.lookup position with
  | none =>
    rw [hnode] at hkind
    cases hkind
  | some node =>
    rw [hnode] at hkind
    rw [h position node hnode]
    exact hkind

theorem Vacant.ne {tree : FileTree α} {parent position : List Bytes} {name : Bytes} {found : Node α}
    (h : tree.Vacant parent name) (hfound : tree.lookup position = some found) :
    position ≠ parent ++ [name] := by
  rintro rfl
  rw [Option.isNone_iff_eq_none.mp h.2.1] at hfound
  cases hfound

/-- A new entry with the attributes it is given afterwards: what was there stays. -/
theorem extends_setAttributes_add (tree : FileTree α) (parent : List Bytes) (name : Bytes)
    (node : Node α) (h : tree.Vacant parent name) (f : α → α) :
    tree.Extends ((tree.add parent name node h).setAttributes (parent ++ [name]) f) := by
  intro position found hfound
  have hne := h.ne hfound
  show (if position = parent ++ [name] then _ else _) = some found
  rw [if_neg hne]
  show (if position = parent ++ [name] then _ else _) = some found
  rw [if_neg hne]
  exact hfound

theorem extends_add (tree : FileTree α) (parent : List Bytes) (name : Bytes) (node : Node α)
    (h : tree.Vacant parent name) : tree.Extends (tree.add parent name node h) := by
  intro position found hfound
  have hne := h.ne hfound
  show (if position = parent ++ [name] then _ else _) = some found
  rw [if_neg hne]
  exact hfound

/-- The tree that holds a directory at its root and nothing else. -/
def empty (attributes : α) : FileTree α where
  lookup position := if position = [] then some ⟨.directory, attributes⟩ else none
  root := rfl
  parents position name h := by
    rw [if_neg (by simp)] at h
    cases h
  proper position name h := by
    rw [if_neg (by simp)] at h
    cases h

/-- The entries of a list, one after the other; those without room are left out. -/
def ofEntries (attributes : α) (entries : List (List Bytes × Bytes × Node α)) : FileTree α :=
  entries.foldl (fun tree (parent, name, node) => (tree.create parent name node).getD tree)
    (empty attributes)

/-- Whatever lies below the root comes from the list. -/
theorem mem_of_lookup_ofEntries {attributes : α} {entries : List (List Bytes × Bytes × Node α)}
    {position : List Bytes} {node : Node α}
    (h : (ofEntries attributes entries).lookup position = some node) :
    position = [] ∨ ∃ entry ∈ entries, position = entry.1 ++ [entry.2.1] ∧ node = entry.2.2 := by
  induction entries using List.reverseRecOn with
  | nil =>
    left
    by_contra hne
    have hnone : (empty attributes).lookup position = none := if_neg hne
    exact absurd (hnone.symm.trans h) (by simp)
  | append_singleton entries entry ih =>
    have hlast : ofEntries attributes (entries ++ [entry]) =
        ((ofEntries attributes entries).create entry.1 entry.2.1 entry.2.2).getD
          (ofEntries attributes entries) := by
      rw [ofEntries, List.foldl_append]
      rfl
    have hbefore : (ofEntries attributes entries).lookup position = some node →
        position = [] ∨ ∃ e ∈ entries ++ [entry], position = e.1 ++ [e.2.1] ∧ node = e.2.2 := by
      intro hfound
      rcases ih hfound with hroot | ⟨e, he, hposition⟩
      · exact Or.inl hroot
      · exact Or.inr ⟨e, List.mem_append_left _ he, hposition⟩
    rw [hlast] at h
    unfold create at h
    split at h
    · rename_i hvacant
      by_cases hnew : position = entry.1 ++ [entry.2.1]
      · right
        refine ⟨entry, by simp, hnew, ?_⟩
        have hadded : (if position = entry.1 ++ [entry.2.1] then some entry.2.2
            else (ofEntries attributes entries).lookup position) = some node := h
        rw [if_pos hnew] at hadded
        exact (Option.some.inj hadded).symm
      · apply hbefore
        have hadded : (if position = entry.1 ++ [entry.2.1] then some entry.2.2
            else (ofEntries attributes entries).lookup position) = some node := h
        rw [if_neg hnew] at hadded
        exact hadded
    · exact hbefore h

end FileTree

end Foundations
