import Sandcamp.Foundations.FileTree
import Sandcamp.Foundations.Checks
import Sandcamp.Sandrun.Overlay

/-!
# Targets inside the merged rootfs (linux.rs:704-723, 1081-1176)

`resolve_target` follows a path below the rootfs without leaving it: it walks down
from the rootfs, and at the first symbolic link it starts again with the link's text
in place. The merged rootfs is a tree; what it resolves to is kept as the names below
the rootfs, and `physical` writes the path.
-/

namespace Sandcamp.Sandrun
open Foundations Foundations.UnixPath

abbrev Tree := FileTree Attributes

/-- The host around the rootfs, and which of the system calls fail. -/
structure Host where
  /-- The call behind this operation code fails on this path. -/
  fault : Bytes → Bytes → Bool
  /-- `fs::canonicalize`. -/
  canonicalize : Tree → Bytes → Option Bytes
  /-- `fs::metadata` of a canonical path. -/
  metadata : Tree → Bytes → Option FileKind
  /-- Something other than a directory lies at this path. -/
  occupied : Bytes → Bool
  umask : ℕ

/-- `PathBuf::push`, name by name. -/
def physical (rootfs : Bytes) (names : List Bytes) : Bytes := names.foldl push rootfs

theorem physical_snoc {rootfs : Bytes} (position : List Bytes) (name : Bytes) :
    push (physical rootfs position) name = physical rootfs (position ++ [name]) := by
  unfold physical
  rw [List.foldl_append]
  rfl

/-- The path inside the rootfs. -/
def logical (names : List Bytes) : Bytes := physical (lit "/") names

def invalidTarget (target : Bytes) (reason : String) : RuntimeError :=
  .invalidMountTarget target (lit reason)

/-- A system call that may fail. -/
def attempt (host : Host) (operation : String) (path : Bytes) : Except RuntimeError Unit :=
  rejectIf (host.fault (lit operation) path = true) (.operation (lit operation) (some path))

/-- The kind of what lies there, and an error if nothing does. -/
def stat (host : Host) (tree : Tree) (rootfs : Bytes) (position : Position) (operation : String) :
    Except RuntimeError FileKind := do
  attempt host operation (physical rootfs position)
  okOr (tree.kindAt position) (.operation (lit operation) (some (physical rootfs position)))

/-- The loop of `normalize_inner_path`. -/
def normalizeComponents : List Component → List Bytes → Option (List Bytes)
  | [], names => some names
  | .rootDir :: rest, names => normalizeComponents rest names
  | .curDir :: rest, names => normalizeComponents rest names
  | .normal name :: rest, names => normalizeComponents rest (names ++ [name])
  | .parentDir :: rest, names =>
    if names = [] then none else normalizeComponents rest names.dropLast

/-- `normalize_inner_path` (`linux.rs:1158-1176`). -/
def normalizeInnerPath (path : Bytes) : Option Bytes :=
  if isAbsolute path = false then none
  else (normalizeComponents (components path) []).map logical

/-- The first link on the way down: where it lies, its text, and the names after it. -/
def findLink (host : Host) (tree : Tree) (rootfs : Bytes) (parent : Position) :
    List Bytes → Except RuntimeError (Option (Position × Bytes × Bytes × List Bytes))
  | [] => .ok none
  | name :: rest => do
    match ← stat host tree rootfs (parent ++ [name]) "mount_target_resolve_failed" with
    | .symlink text => .ok (some (parent, name, text, rest))
    | _ => findLink host tree rootfs (parent ++ [name]) rest

/-- The path to go on with at a link. -/
def redirect (parent : Position) (link : Bytes) (rest : List Bytes) : Bytes :=
  let next := if isAbsolute link then link else push (logical parent) link
  rest.foldl push next

/-- The loop of `resolve_target`, with the number of links that may still be followed. -/
def resolveFrom (host : Host) (tree : Tree) (rootfs target : Bytes) (left : ℕ) (path : Bytes) :
    Except RuntimeError Position := do
  match ← findLink host tree rootfs [] (names path) with
  | none => .ok (names path)
  | some (parent, name, link, rest) =>
    match left with
    | 0 => .error (invalidTarget target "target contains too many symlinks")
    | left + 1 => do
      attempt host "mount_target_readlink_failed" (physical rootfs (parent ++ [name]))
      let next ← okOr (normalizeInnerPath (redirect parent link rest))
        (invalidTarget target "target escapes rootfs through a symlink")
      resolveFrom host tree rootfs target left next

/-- `resolve_target` (`linux.rs:1101-1156`), as names below the rootfs. -/
def resolvePosition (host : Host) (tree : Tree) (rootfs target : Bytes) :
    Except RuntimeError Position := do
  let path ← okOr (normalizeInnerPath target) (invalidTarget target "target escapes rootfs")
  resolveFrom host tree rootfs target 40 path

/-- `resolve_target` (`linux.rs:1101-1156`). -/
def resolveTarget (host : Host) (tree : Tree) (rootfs target : Bytes) :
    Except RuntimeError Bytes :=
  (resolvePosition host tree rootfs target).map (physical rootfs)

/-- `inner_path` (`linux.rs:709-723`). -/
def innerPath (rootfs resolved original : Bytes) : Except RuntimeError Bytes :=
  match stripPrefix resolved rootfs with
  | none => .error (invalidTarget original "resolved target escapes rootfs")
  | some relative =>
    if relative = [] then .error (invalidTarget original "resolved target is the rootfs")
    else .ok (relative.foldl (fun path component => push path component.text) (lit "/"))

/-- `resolve_inner_target` (`linux.rs:704-707`). -/
def resolveInnerTarget (host : Host) (tree : Tree) (rootfs target : Bytes) :
    Except RuntimeError Bytes := do
  let resolved ← resolveTarget host tree rootfs target
  innerPath rootfs resolved target

/-- `resolve_directory` (`linux.rs:1081-1099`). -/
def resolveDirectory (host : Host) (tree : Tree) (rootfs target : Bytes) :
    Except RuntimeError Bytes := do
  let resolved ← resolvePosition host tree rootfs target
  let kind ← stat host tree rootfs resolved "mount_target_stat_failed"
  rejectIf (kind ≠ .directory) (invalidTarget target "mount target is not a directory")
  .ok (physical rootfs resolved)

/-! ### What a resolved target is -/

/-- Names that may stand below a directory. -/
def Proper (position : Position) : Prop := ∀ name ∈ position, ProperName name

instance (position : Position) : Decidable (Proper position) :=
  inferInstanceAs (Decidable (∀ name ∈ position, ProperName name))

theorem proper_snoc {position : Position} {name : Bytes} (h : Proper position)
    (hname : ProperName name) : Proper (position ++ [name]) := by
  intro n hn
  rcases List.mem_append.mp hn with hn | hn
  · exact h n hn
  · rw [List.mem_singleton.mp hn]
    exact hname

theorem components_physical (rootfs : Bytes) (position : Position) (hroot : rootfs ≠ [])
    (h : Proper position) :
    components (physical rootfs position) = components rootfs ++ position.map .normal :=
  components_foldl_push position rootfs hroot h

theorem names_logical (position : Position) (h : Proper position) :
    names (logical position) = position := by
  have hroot : components (lit "/") = [.rootDir] := by decide
  have hc := components_physical (lit "/") position (by decide) h
  rw [hroot] at hc
  unfold names
  rw [show components (logical position) = _ from hc]
  simp

/-- The names of a path that are kept are proper ones. -/
theorem proper_normalizeComponents {cs : List Component} {start position : Position}
    (hcs : ∀ name, Component.normal name ∈ cs → ProperName name) (hstart : Proper start)
    (h : normalizeComponents cs start = some position) : Proper position := by
  induction cs generalizing start with
  | nil =>
    obtain rfl := Option.some.inj h
    exact hstart
  | cons c cs ih =>
    have hrest : ∀ name, Component.normal name ∈ cs → ProperName name := fun name hm =>
      hcs name (List.mem_cons_of_mem _ hm)
    cases c with
    | rootDir => exact ih hrest hstart h
    | curDir => exact ih hrest hstart h
    | normal name => exact ih hrest (proper_snoc hstart (hcs name List.mem_cons_self)) h
    | parentDir =>
      simp only [normalizeComponents] at h
      split_ifs at h
      exact ih hrest (fun name hm => hstart name (List.dropLast_subset _ hm)) h

theorem names_normalizeInnerPath {path next : Bytes} (h : normalizeInnerPath path = some next) :
    Proper (names next) := by
  unfold normalizeInnerPath at h
  split_ifs at h
  obtain ⟨position, hposition, rfl⟩ := Option.map_eq_some_iff.mp h
  have hproper : Proper position := by
    refine proper_normalizeComponents (fun name hm => ?_) (fun _ hm => absurd hm List.not_mem_nil)
      hposition
    refine names_proper path name ?_
    exact List.mem_filterMap.mpr ⟨_, hm, rfl⟩
  rw [names_logical position hproper]
  exact hproper

theorem resolveFrom_proper (host : Host) (tree : Tree) (rootfs target : Bytes) (left : ℕ)
    {path : Bytes} {position : Position} (hpath : Proper (names path))
    (h : resolveFrom host tree rootfs target left path = .ok position) : Proper position := by
  induction left generalizing path with
  | zero =>
    unfold resolveFrom at h
    obtain ⟨found, -, hrest⟩ := (bind_eq_ok _ _ _).mp h
    cases found with
    | none =>
      obtain rfl := Except.ok.inj hrest
      exact hpath
    | some link => cases hrest
  | succ left ih =>
    unfold resolveFrom at h
    obtain ⟨found, -, hrest⟩ := (bind_eq_ok _ _ _).mp h
    cases found with
    | none =>
      obtain rfl := Except.ok.inj hrest
      exact hpath
    | some link =>
      obtain ⟨-, -, hrest⟩ := (bind_eq_ok _ _ _).mp hrest
      obtain ⟨next, hnext, hrest⟩ := (bind_eq_ok _ _ _).mp hrest
      rw [okOr_eq_ok] at hnext
      exact ih (names_normalizeInnerPath hnext) hrest

theorem resolvePosition_proper {host : Host} {tree : Tree} {rootfs target : Bytes}
    {position : Position} (h : resolvePosition host tree rootfs target = .ok position) :
    Proper position := by
  obtain ⟨path, hpath, hrest⟩ := (bind_eq_ok _ _ _).mp h
  rw [okOr_eq_ok] at hpath
  exact resolveFrom_proper host tree rootfs target 40 (names_normalizeInnerPath hpath) hrest

/-! ### Growing the tree -/

theorem stat_eq_ok {host : Host} {tree : Tree} {rootfs : Bytes} {position : Position}
    {operation : String} {kind : FileKind} (h : stat host tree rootfs position operation = .ok kind) :
    tree.kindAt position = some kind := by
  obtain ⟨-, -, hkind⟩ := (bind_eq_ok _ _ _).mp h
  exact (okOr_eq_ok _ _ _).mp hkind

theorem findLink_extends {host : Host} {tree tree' : Tree} (hextends : tree.Extends tree')
    (rootfs : Bytes) (parent : Position) (path : List Bytes)
    {found found' : Option (Position × Bytes × Bytes × List Bytes)}
    (h : findLink host tree rootfs parent path = .ok found)
    (h' : findLink host tree' rootfs parent path = .ok found') : found = found' := by
  induction path generalizing parent with
  | nil =>
    cases h
    cases h'
    rfl
  | cons name rest ih =>
    obtain ⟨kind, hkind, hrest⟩ := (bind_eq_ok _ _ _).mp h
    obtain ⟨kind', hkind', hrest'⟩ := (bind_eq_ok _ _ _).mp h'
    have hsame : kind = kind' :=
      Option.some.inj ((hextends.kindAt (stat_eq_ok hkind)).symm.trans (stat_eq_ok hkind'))
    subst hsame
    cases kind with
    | symlink text =>
      cases hrest
      cases hrest'
      rfl
    | directory => exact ih (parent ++ [name]) hrest hrest'
    | regular contents => exact ih (parent ++ [name]) hrest hrest'
    | other => exact ih (parent ++ [name]) hrest hrest'

theorem resolveFrom_extends {host : Host} {tree tree' : Tree} (hextends : tree.Extends tree')
    (rootfs target : Bytes) (left : ℕ) {path : Bytes} {position position' : Position}
    (h : resolveFrom host tree rootfs target left path = .ok position)
    (h' : resolveFrom host tree' rootfs target left path = .ok position') :
    position = position' := by
  induction left generalizing path with
  | zero =>
    unfold resolveFrom at h h'
    obtain ⟨found, hfound, hrest⟩ := (bind_eq_ok _ _ _).mp h
    obtain ⟨found', hfound', hrest'⟩ := (bind_eq_ok _ _ _).mp h'
    obtain rfl := findLink_extends hextends rootfs [] _ hfound hfound'
    cases found with
    | none => exact (Except.ok.inj hrest).symm.trans (Except.ok.inj hrest')
    | some link => cases hrest
  | succ left ih =>
    unfold resolveFrom at h h'
    obtain ⟨found, hfound, hrest⟩ := (bind_eq_ok _ _ _).mp h
    obtain ⟨found', hfound', hrest'⟩ := (bind_eq_ok _ _ _).mp h'
    obtain rfl := findLink_extends hextends rootfs [] _ hfound hfound'
    cases found with
    | none => exact (Except.ok.inj hrest).symm.trans (Except.ok.inj hrest')
    | some link =>
      obtain ⟨-, -, hrest⟩ := (bind_eq_ok _ _ _).mp hrest
      obtain ⟨next, hnext, hrest⟩ := (bind_eq_ok _ _ _).mp hrest
      obtain ⟨-, -, hrest'⟩ := (bind_eq_ok _ _ _).mp hrest'
      obtain ⟨next', hnext', hrest'⟩ := (bind_eq_ok _ _ _).mp hrest'
      rw [okOr_eq_ok] at hnext hnext'
      obtain rfl := Option.some.inj (hnext.symm.trans hnext')
      exact ih hrest hrest'

theorem resolvePosition_extends {host : Host} {tree tree' : Tree}
    (hextends : tree.Extends tree') {rootfs target : Bytes} {position position' : Position}
    (h : resolvePosition host tree rootfs target = .ok position)
    (h' : resolvePosition host tree' rootfs target = .ok position') : position = position' := by
  obtain ⟨path, hpath, hrest⟩ := (bind_eq_ok _ _ _).mp h
  obtain ⟨path', hpath', hrest'⟩ := (bind_eq_ok _ _ _).mp h'
  rw [okOr_eq_ok] at hpath hpath'
  obtain rfl := Option.some.inj (hpath.symm.trans hpath')
  exact resolveFrom_extends hextends rootfs target 40 hrest hrest'

/-! ### Inner paths -/

theorem resolveTarget_eq_ok (host : Host) (tree : Tree) (rootfs target path : Bytes) :
    resolveTarget host tree rootfs target = .ok path ↔
      ∃ position, resolvePosition host tree rootfs target = .ok position ∧
        physical rootfs position = path := by
  unfold resolveTarget
  cases resolvePosition host tree rootfs target with
  | error e => simp [Except.map]
  | ok position => simp [Except.map]

theorem innerPath_of_components {rootfs resolved original inner : Bytes} {position : Position}
    (h : components resolved = components rootfs ++ position.map .normal) :
    innerPath rootfs resolved original = .ok inner ↔ position ≠ [] ∧ inner = logical position := by
  have hjoin : (position.map Component.normal).foldl
      (fun path component => push path component.text) (lit "/") = logical position := by
    rw [List.foldl_map]
    rfl
  unfold innerPath
  rw [stripPrefix_of_components h]
  show (if position.map Component.normal = [] then _ else _) = _ ↔ _
  rw [hjoin]
  simp only [List.map_eq_nil_iff]
  by_cases hnil : position = []
  · simp [hnil]
  · simp [hnil, eq_comm]

theorem innerPath_physical {rootfs original inner : Bytes} {position : Position}
    (hroot : rootfs ≠ []) (hproper : Proper position) :
    innerPath rootfs (physical rootfs position) original = .ok inner ↔
      position ≠ [] ∧ inner = logical position :=
  innerPath_of_components (components_physical rootfs position hroot hproper)

/-- A target that is resolved and checked to lie below the rootfs. -/
theorem resolveInnerTarget_eq_ok (host : Host) (tree : Tree) (rootfs target inner : Bytes)
    (hroot : rootfs ≠ []) :
    resolveInnerTarget host tree rootfs target = .ok inner ↔
      ∃ position, resolvePosition host tree rootfs target = .ok position ∧ position ≠ [] ∧
        inner = logical position := by
  unfold resolveInnerTarget
  rw [bind_eq_ok]
  constructor
  · rintro ⟨path, hpath, hinner⟩
    obtain ⟨position, hposition, rfl⟩ := (resolveTarget_eq_ok host tree rootfs target path).mp hpath
    have hproper := resolvePosition_proper hposition
    exact ⟨position, hposition, (innerPath_physical hroot hproper).mp hinner⟩
  · rintro ⟨position, hposition, hinner⟩
    have hproper := resolvePosition_proper hposition
    exact ⟨physical rootfs position,
      (resolveTarget_eq_ok host tree rootfs target _).mpr ⟨position, hposition, rfl⟩,
      (innerPath_physical hroot hproper).mpr hinner⟩

end Sandcamp.Sandrun
