import Sandcamp.Foundations.PathCalls

/-!
# A tree inside a tree

What lies below a directory is a tree of its own. `below` takes it out, and `graft` puts
another one in its place and leaves everything else as it is. The calls by path that stay
on directories below it do the same in both trees: a path that leads to the directory
leads, with the names of a plain position behind it, to that position.
-/

namespace Foundations.FileTree
open UnixPath

variable {α : Type}

theorem lookup_injective {tree tree' : FileTree α} (h : ∀ p, tree.lookup p = tree'.lookup p) :
    tree = tree' := by
  cases tree
  cases tree'
  congr
  exact funext h

/-- What lies below a directory. -/
def below (world : FileTree α) (base : List Bytes) (hbase : world.kindAt base = some .directory) :
    FileTree α where
  lookup position := world.lookup (base ++ position)
  root := by
    rw [List.append_nil]
    exact hbase
  parents position name h := by
    rw [← List.append_assoc] at h
    exact world.parents (base ++ position) name h
  proper position name h := by
    rw [← List.append_assoc] at h
    exact world.proper (base ++ position) name h

/-- Another tree in the place of what lies below a directory. -/
def graft (world : FileTree α) (base : List Bytes) (hbase : world.kindAt base = some .directory)
    (tree : FileTree α) : FileTree α where
  lookup position :=
    if base <+: position then tree.lookup (position.drop base.length) else world.lookup position
  root := by
    split
    · rw [List.drop_nil]
      exact tree.root
    · exact world.root
  parents position name h := by
    by_cases hposition : base <+: position
    · obtain ⟨rest, rfl⟩ := hposition
      rw [if_pos ((List.prefix_append base rest).trans (List.prefix_append _ _)),
        List.append_assoc, List.drop_left] at h
      rw [if_pos (List.prefix_append base rest), List.drop_left]
      exact tree.parents rest name h
    · rw [if_neg hposition]
      by_cases hchild : base <+: position ++ [name]
      · obtain rfl := (List.prefix_concat_iff.mp hchild).resolve_right hposition
        exact world.parents position name (isSome_of_kindAt hbase)
      · rw [if_neg hchild] at h
        exact world.parents position name h
  proper position name h := by
    by_cases hposition : base <+: position
    · obtain ⟨rest, rfl⟩ := hposition
      rw [if_pos ((List.prefix_append base rest).trans (List.prefix_append _ _)),
        List.append_assoc, List.drop_left] at h
      exact tree.proper rest name h
    · by_cases hchild : base <+: position ++ [name]
      · obtain rfl := (List.prefix_concat_iff.mp hchild).resolve_right hposition
        exact world.proper position name (isSome_of_kindAt hbase)
      · rw [if_neg hchild] at h
        exact world.proper position name h

section Graft

variable {world tree tree' : FileTree α} {base : List Bytes}
  (hbase : world.kindAt base = some .directory)

theorem lookup_graft (position : List Bytes) :
    (world.graft base hbase tree).lookup (base ++ position) = tree.lookup position := by
  show (if base <+: base ++ position then _ else _) = _
  rw [if_pos (List.prefix_append base position), List.drop_left]

theorem lookup_graft_outside {position : List Bytes} (h : ¬base <+: position) :
    (world.graft base hbase tree).lookup position = world.lookup position :=
  if_neg h

theorem kindAt_graft (position : List Bytes) :
    (world.graft base hbase tree).kindAt (base ++ position) = tree.kindAt position := by
  unfold kindAt
  rw [lookup_graft]

theorem graft_below : world.graft base hbase (world.below base hbase) = world := by
  apply lookup_injective
  intro position
  by_cases hposition : base <+: position
  · obtain ⟨rest, rfl⟩ := hposition
    exact lookup_graft hbase rest
  · exact lookup_graft_outside hbase hposition

theorem graft_extends (h : tree.Extends tree') :
    (world.graft base hbase tree).Extends (world.graft base hbase tree') := by
  intro position node hfound
  by_cases hposition : base <+: position
  · obtain ⟨rest, rfl⟩ := hposition
    rw [lookup_graft] at hfound ⊢
    exact h rest node hfound
  · rw [lookup_graft_outside hbase hposition] at hfound ⊢
    exact hfound

theorem create_graft (parent : List Bytes) (name : Bytes) (node : Node α) :
    (world.graft base hbase tree).create (base ++ parent) name node =
      (tree.create parent name node).map (world.graft base hbase) := by
  have hvacant : (world.graft base hbase tree).Vacant (base ++ parent) name ↔
      tree.Vacant parent name := by
    unfold Vacant
    rw [kindAt_graft, List.append_assoc, lookup_graft]
  unfold create
  by_cases h : tree.Vacant parent name
  · rw [dif_pos (hvacant.mpr h), dif_pos h, Option.map_some]
    apply congrArg some
    apply lookup_injective
    intro position
    show (if position = base ++ parent ++ [name] then _ else _) = _
    by_cases hposition : base <+: position
    · obtain ⟨rest, rfl⟩ := hposition
      rw [lookup_graft, lookup_graft, List.append_assoc]
      show _ = if rest = parent ++ [name] then _ else _
      simp only [List.append_cancel_left_eq]
    · have hne : position ≠ base ++ parent ++ [name] := by
        rintro rfl
        exact hposition ((List.prefix_append base parent).trans (List.prefix_append _ _))
      rw [if_neg hne, lookup_graft_outside hbase hposition, lookup_graft_outside hbase hposition]
  · rw [dif_neg (hvacant.not.mpr h), dif_neg h]
    rfl

theorem setAttributes_graft (position : List Bytes) (f : α → α) :
    (world.graft base hbase tree).setAttributes (base ++ position) f =
      world.graft base hbase (tree.setAttributes position f) := by
  apply lookup_injective
  intro other
  show (if other = base ++ position then _ else _) = _
  by_cases hother : base <+: other
  · obtain ⟨rest, rfl⟩ := hother
    rw [lookup_graft, lookup_graft]
    show _ = if rest = position then _ else _
    simp only [List.append_cancel_left_eq]
  · have hne : other ≠ base ++ position := by
      rintro rfl
      exact hother (List.prefix_append base position)
    rw [if_neg hne, lookup_graft_outside hbase hother, lookup_graft_outside hbase hother]

end Graft

/-! ### Paths into the tree -/

/-- An absolute path that leads to a directory. -/
structure Rooted (world : FileTree α) (path : Bytes) (base : List Bytes) : Prop where
  absolute : isAbsolute path = true
  found : world.find true path = .ok base
  directory : world.kindAt base = some .directory

theorem Rooted.extends {world world' : FileTree α} {path : Bytes} {base : List Bytes}
    (h : world.Rooted path base) (hextends : world.Extends world') : world'.Rooted path base where
  absolute := h.absolute
  found := reach_extends hextends maxLinks _ h.found
  directory := hextends.kindAt h.directory

theorem Rooted.ne_nil {world : FileTree α} {path : Bytes} {base : List Bytes}
    (h : world.Rooted path base) : path ≠ [] := by
  intro hnil
  have habsolute := h.absolute
  rw [hnil] at habsolute
  cases habsolute

section Paths

variable {world tree : FileTree α} {base : List Bytes} {root : Bytes}
  {hbase : world.kindAt base = some .directory}

theorem proper_of_plain {position : List Bytes} (h : tree.Plain position) :
    ∀ name ∈ position, ProperName name := by
  induction position using List.reverseRecOn with
  | nil => exact fun name hm => absurd hm List.not_mem_nil
  | append_singleton position last ih =>
    obtain ⟨kind, hkind, -⟩ := h (position ++ [last]) (by simp) (List.prefix_refl _)
    intro name hm
    rcases List.mem_append.mp hm with hm | hm
    · exact ih (h.start (List.prefix_append _ _)) name hm
    · rw [List.mem_singleton.mp hm]
      exact proper_of_kindAt hkind

theorem foldl_push_ne_nil (ns : List Bytes) (hroot : root ≠ [])
    (h : ∀ name ∈ ns, ProperName name) : ns.foldl push root ≠ [] := by
  induction ns generalizing root with
  | nil => exact hroot
  | cons n ns ih =>
    exact ih (push_ne_nil root n hroot (h n List.mem_cons_self)) fun name hm =>
      h name (List.mem_cons_of_mem _ hm)

theorem find_plain (h : (world.graft base hbase tree).Rooted root base) {position : List Bytes}
    (hplain : tree.Plain position) :
    (world.graft base hbase tree).find true (position.foldl push root) = .ok (base ++ position) := by
  induction position using List.reverseRecOn with
  | nil =>
    rw [List.append_nil]
    exact h.found
  | append_singleton position name ih =>
    have hstart := hplain.start (List.prefix_append position [name])
    obtain ⟨kind, hkind, hlink⟩ := hplain (position ++ [name]) (by simp) (List.prefix_refl _)
    have hproper := proper_of_kindAt hkind
    have hdirectory : (world.graft base hbase tree).kindAt (base ++ position) = some .directory := by
      rw [kindAt_graft]
      exact tree.parents position name (isSome_of_kindAt hkind)
    have hentry : (world.graft base hbase tree).kindAt (base ++ position ++ [name]) = some kind := by
      rw [List.append_assoc, kindAt_graft]
      exact hkind
    rw [List.foldl_append, ← List.append_assoc]
    apply find_push (foldl_push_ne_nil position h.ne_nil (proper_of_plain hstart)) hproper
      (ih hstart)
    exact reach_plain_name hdirectory hproper hentry hlink

theorem status_graft (h : (world.graft base hbase tree).Rooted root base)
    {parent : List Bytes} {name : Bytes} (hplain : tree.Plain parent) (hname : ProperName name) :
    (world.graft base hbase tree).status false ((parent ++ [name]).foldl push root) =
      okOr (tree.kindAt (parent ++ [name])) (tree.missing parent) := by
  have hmissing : (world.graft base hbase tree).missing (base ++ parent) = tree.missing parent := by
    unfold missing
    rw [kindAt_graft]
  have hwhere : (world.graft base hbase tree).find false ((parent ++ [name]).foldl push root) =
      (okOr (tree.kindAt (parent ++ [name])) (tree.missing parent)).map
        fun _ => base ++ (parent ++ [name]) := by
    rw [List.foldl_append, ← List.append_assoc, ← kindAt_graft hbase, ← List.append_assoc,
      ← hmissing]
    apply find_push (foldl_push_ne_nil parent h.ne_nil (proper_of_plain hplain)) hname
      (find_plain h hplain)
    exact reach_name hname
  unfold status
  rw [hwhere]
  cases hkind : tree.kindAt (parent ++ [name]) with
  | none => rfl
  | some kind =>
    show okOr ((world.graft base hbase tree).kindAt (base ++ (parent ++ [name]))) Errno.noEntry = _
    rw [kindAt_graft, hkind]
    rfl

theorem status_plain (h : (world.graft base hbase tree).Rooted root base) {position : List Bytes}
    (hplain : tree.Plain position) :
    (world.graft base hbase tree).status true (position.foldl push root) =
      okOr (tree.kindAt position) Errno.noEntry := by
  unfold status
  rw [find_plain h hplain]
  show okOr ((world.graft base hbase tree).kindAt (base ++ position)) Errno.noEntry = _
  rw [kindAt_graft]

theorem makeAt_graft (h : (world.graft base hbase tree).Rooted root base)
    {parent : List Bytes} {name : Bytes} (hplain : tree.Plain parent)
    (hdirectory : tree.kindAt parent = some .directory) (hname : ProperName name)
    (node : Node α) :
    (world.graft base hbase tree).makeAt ((parent ++ [name]).foldl push root) node =
      if (tree.lookup (parent ++ [name])).isSome then .error .alreadyExists
      else okOr ((tree.create parent name node).map (world.graft base hbase)) .invalid := by
  have hthere : (world.graft base hbase tree).kindAt (base ++ parent) = some .directory := by
    rw [kindAt_graft]
    exact hdirectory
  rw [List.foldl_append]
  have hmake := makeAt_push (foldl_push_ne_nil parent h.ne_nil (proper_of_plain hplain)) hname
    (find_plain h hplain) hthere node
  rw [List.append_assoc, lookup_graft, create_graft] at hmake
  exact hmake

theorem changeAt_graft (h : (world.graft base hbase tree).Rooted root base)
    {position : List Bytes} (hplain : tree.Plain position) (f : α → α) :
    (world.graft base hbase tree).changeAt (position.foldl push root) f =
      .ok (world.graft base hbase (tree.setAttributes position f)) := by
  unfold changeAt
  rw [bind_of_ok (find_plain h hplain), setAttributes_graft]

end Paths

end Foundations.FileTree
