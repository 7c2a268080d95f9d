import Sandcamp.Foundations.PathWalk
import Sandcamp.Sandrun.Hiding

/-!
# The loop of `resolve_target` (linux.rs:704-723, 1101-1176)

The loop starts again at every link it meets, with the text of the link in its place. It
goes on for at most 40 links, and what it returns is a path on which no link is left.
-/

namespace Sandcamp.Sandrun
open Foundations Foundations.UnixPath Foundations.FileTree

variable {host : Host} {tree : Tree} {rootfs target : Bytes} {parent position : Position}

/-! ### One pass of the loop -/

theorem findLink_none {path : List Bytes} (hparent : tree.Plain parent)
    (h : findLink host tree rootfs parent path = .ok none) : tree.Plain (parent ++ path) := by
  induction path generalizing parent with
  | nil =>
    rw [List.append_nil]
    exact hparent
  | cons name rest ih =>
    obtain ⟨kind, hkind, hrest⟩ := (bind_eq_ok _ _ _).mp h
    have hentry := stat_eq_ok hkind
    have hsplit : parent ++ name :: rest = parent ++ [name] ++ rest := by simp
    rw [hsplit]
    cases kind with
    | symlink text => cases hrest
    | directory => exact ih (plain_snoc hparent hentry nofun) hrest
    | regular contents => exact ih (plain_snoc hparent hentry nofun) hrest
    | other => exact ih (plain_snoc hparent hentry nofun) hrest

theorem findLink_some {path : List Bytes} {found : Position × Bytes × Bytes × List Bytes}
    (hparent : tree.Plain parent)
    (h : findLink host tree rootfs parent path = .ok (some found)) :
    parent ++ path = found.1 ++ found.2.1 :: found.2.2.2 ∧ tree.Plain found.1 ∧
      tree.kindAt (found.1 ++ [found.2.1]) = some (.symlink found.2.2.1) := by
  induction path generalizing parent with
  | nil => cases h
  | cons name rest ih =>
    obtain ⟨kind, hkind, hrest⟩ := (bind_eq_ok _ _ _).mp h
    have hentry := stat_eq_ok hkind
    have hsplit : parent ++ name :: rest = parent ++ [name] ++ rest := by simp
    cases kind with
    | symlink text =>
      obtain rfl := Option.some.inj (Except.ok.inj hrest)
      exact ⟨rfl, hparent, hentry⟩
    | directory =>
      rw [hsplit]
      exact ih (plain_snoc hparent hentry nofun) hrest
    | regular contents =>
      rw [hsplit]
      exact ih (plain_snoc hparent hentry nofun) hrest
    | other =>
      rw [hsplit]
      exact ih (plain_snoc hparent hentry nofun) hrest

/-- One pass of the loop of `resolve_target` after so many links: the position it returns,
or the path it goes on with. -/
def resolvePass (host : Host) (tree : Tree) (rootfs target : Bytes) (followed : ℕ)
    (path : Bytes) : Except RuntimeError (Position ⊕ Bytes) := do
  match ← findLink host tree rootfs [] (names path) with
  | none => .ok (.inl (names path))
  | some (parent, name, link, rest) => do
    rejectIf (followed + 1 > 40) (invalidTarget target "target contains too many symlinks")
    attempt host "mount_target_readlink_failed" (physical rootfs (parent ++ [name]))
    let next ← okOr (normalizeInnerPath (redirect parent link rest))
      (invalidTarget target "target escapes rootfs through a symlink")
    .ok (.inr next)

/-- The loop comes to this path after so many links. -/
inductive Follows (host : Host) (tree : Tree) (rootfs target : Bytes) : ℕ → Bytes → Prop
  | start {path : Bytes} : normalizeInnerPath target = some path →
      Follows host tree rootfs target 0 path
  | next {followed : ℕ} {path next : Bytes} : Follows host tree rootfs target followed path →
      resolvePass host tree rootfs target followed path = .ok (.inr next) →
      Follows host tree rootfs target (followed + 1) next

theorem resolvePass_inr {followed : ℕ} {path next : Bytes}
    (h : resolvePass host tree rootfs target followed path = .ok (.inr next)) :
    followed < 40 ∧ ∃ parent name link rest,
      findLink host tree rootfs [] (names path) = .ok (some (parent, name, link, rest)) ∧
      normalizeInnerPath (redirect parent link rest) = some next := by
  obtain ⟨found, hfound, hrest⟩ := (bind_eq_ok _ _ _).mp h
  cases found with
  | none => cases hrest
  | some found =>
    obtain ⟨parent, name, link, rest⟩ := found
    obtain ⟨_, hcount, hrest⟩ := (bind_eq_ok _ _ _).mp hrest
    obtain ⟨-, -, hrest⟩ := (bind_eq_ok _ _ _).mp hrest
    obtain ⟨path', hnext, hrest⟩ := (bind_eq_ok _ _ _).mp hrest
    have hfew := (rejectIf_eq_ok _ _ _).mp hcount
    rw [okOr_eq_ok] at hnext
    obtain rfl := Sum.inr.inj (Except.ok.inj hrest)
    exact ⟨by omega, parent, name, link, rest, hfound, hnext⟩

theorem resolvePass_inl {followed : ℕ} {path : Bytes}
    (h : resolvePass host tree rootfs target followed path = .ok (.inl position)) :
    findLink host tree rootfs [] (names path) = .ok none ∧ position = names path := by
  obtain ⟨found, hfound, hrest⟩ := (bind_eq_ok _ _ _).mp h
  cases found with
  | none => exact ⟨hfound, (Sum.inl.inj (Except.ok.inj hrest)).symm⟩
  | some found =>
    obtain ⟨-, -, hrest⟩ := (bind_eq_ok _ _ _).mp hrest
    obtain ⟨-, -, hrest⟩ := (bind_eq_ok _ _ _).mp hrest
    obtain ⟨path', -, hrest⟩ := (bind_eq_ok _ _ _).mp hrest
    cases hrest

theorem resolveFrom_eq (left : ℕ) (path : Bytes) (hleft : left ≤ 40) :
    resolveFrom host tree rootfs target left path = (do
      match ← resolvePass host tree rootfs target (40 - left) path with
      | .inl position => .ok position
      | .inr next => resolveFrom host tree rootfs target (left - 1) next) := by
  conv_lhs => unfold resolveFrom
  unfold resolvePass
  cases hfound : findLink host tree rootfs [] (names path) with
  | error e => rfl
  | ok found =>
    cases found with
    | none => rfl
    | some found =>
      obtain ⟨parent, name, link, rest⟩ := found
      cases left with
      | zero => rfl
      | succ left =>
        have hfew : ¬40 - (left + 1) + 1 > 40 := by omega
        have hcount : rejectIf (40 - (left + 1) + 1 > 40)
            (invalidTarget target "target contains too many symlinks") = .ok () :=
          (rejectIf_eq_ok _ _ _).mpr hfew
        show (do
          attempt host "mount_target_readlink_failed" (physical rootfs (parent ++ [name]))
          let next ← okOr (normalizeInnerPath (redirect parent link rest))
            (invalidTarget target "target escapes rootfs through a symlink")
          resolveFrom host tree rootfs target left next) = _
        simp only [bind, Except.bind, hcount]
        cases attempt host "mount_target_readlink_failed" (physical rootfs (parent ++ [name])) with
        | error e => rfl
        | ok _ =>
          cases okOr (normalizeInnerPath (redirect parent link rest))
              (invalidTarget target "target escapes rootfs through a symlink") with
          | error e => rfl
          | ok next => rfl

theorem resolveFrom_eq_ok {left : ℕ} (hleft : left ≤ 40) {path : Bytes}
    (h : resolveFrom host tree rootfs target left path = .ok position) :
    resolvePass host tree rootfs target (40 - left) path = .ok (.inl position) ∨
    ∃ less next, left = less + 1 ∧
      resolvePass host tree rootfs target (40 - left) path = .ok (.inr next) ∧
      resolveFrom host tree rootfs target less next = .ok position := by
  rw [resolveFrom_eq left path hleft] at h
  obtain ⟨result, hpass, hrest⟩ := (bind_eq_ok _ _ _).mp h
  cases result with
  | inl found =>
    obtain rfl := Except.ok.inj hrest
    exact Or.inl hpass
  | inr next =>
    have hfew := (resolvePass_inr hpass).1
    have hleft' : left = left - 1 + 1 := by omega
    exact Or.inr ⟨left - 1, next, hleft', hpass, hrest⟩

/-- From here on the loop comes to a last pass, which returns its result. -/
theorem loop_ends (left : ℕ) {path : Bytes} (hleft : left ≤ 40)
    (hpath : Follows host tree rootfs target (40 - left) path) :
    ∃ followed last, Follows host tree rootfs target followed last ∧
      resolvePass host tree rootfs target followed last =
        (resolveFrom host tree rootfs target left path).map .inl := by
  induction left generalizing path with
  | zero =>
    rw [resolveFrom_eq 0 path hleft]
    cases hpass : resolvePass host tree rootfs target (40 - 0) path with
    | error e => exact ⟨_, path, hpath, hpass⟩
    | ok result =>
      cases result with
      | inl position => exact ⟨_, path, hpath, hpass⟩
      | inr next =>
        have hfew := (resolvePass_inr hpass).1
        omega
  | succ left ih =>
    rw [resolveFrom_eq (left + 1) path hleft]
    cases hpass : resolvePass host tree rootfs target (40 - (left + 1)) path with
    | error e => exact ⟨_, path, hpath, hpass⟩
    | ok result =>
      cases result with
      | inl position => exact ⟨_, path, hpath, hpass⟩
      | inr next =>
        have hnext := Follows.next hpath hpass
        have hcount : 40 - (left + 1) + 1 = 40 - left := by omega
        rw [hcount] at hnext
        exact ih (by omega) hnext

theorem follows_le {followed : ℕ} {path : Bytes}
    (h : Follows host tree rootfs target followed path) : followed ≤ 40 := by
  cases h with
  | start _ => omega
  | next _ hpass =>
    have hfew := (resolvePass_inr hpass).1
    omega

/-! ### What is returned -/

/-- What the loop returns is a path it has gone down without a link. -/
theorem resolveFrom_last (left : ℕ) {path : Bytes}
    (h : resolveFrom host tree rootfs target left path = .ok position) :
    findLink host tree rootfs [] position = .ok none := by
  induction left generalizing path with
  | zero =>
    unfold resolveFrom at h
    obtain ⟨found, hfound, hrest⟩ := (bind_eq_ok _ _ _).mp h
    cases found with
    | none =>
      obtain rfl := Except.ok.inj hrest
      exact hfound
    | some link => cases hrest
  | succ left ih =>
    unfold resolveFrom at h
    obtain ⟨found, hfound, hrest⟩ := (bind_eq_ok _ _ _).mp h
    cases found with
    | none =>
      obtain rfl := Except.ok.inj hrest
      exact hfound
    | some link =>
      obtain ⟨-, -, hrest⟩ := (bind_eq_ok _ _ _).mp hrest
      obtain ⟨next, -, hrest⟩ := (bind_eq_ok _ _ _).mp hrest
      exact ih hrest

theorem normalizeComponents_normal (ns stack : List Bytes) :
    normalizeComponents (ns.map .normal) stack = some (stack ++ ns) := by
  induction ns generalizing stack with
  | nil =>
    rw [List.append_nil]
    rfl
  | cons n ns ih =>
    rw [List.map_cons, normalizeComponents, ih, List.append_assoc]
    rfl

theorem normalizeInnerPath_logical (h : Proper position) :
    normalizeInnerPath (logical position) = some (logical position) := by
  have hclean := cleanAbsolute_logical h
  have habsolute : isAbsolute (logical position) = true := by
    unfold cleanAbsolute at hclean
    exact (Bool.and_eq_true _ _ ▸ hclean).1
  rw [normalizeInnerPath, if_neg (by rw [habsolute]; decide),
    components_of_cleanAbsolute _ hclean, names_logical position h, normalizeComponents,
    normalizeComponents_normal, List.nil_append, Option.map_some]

theorem normalizeInnerPath_form {path next : Bytes} (h : normalizeInnerPath path = some next) :
    next = logical (names next) ∧ normalizeComponents (components path) [] = some (names next) := by
  have hproper := names_normalizeInnerPath h
  unfold normalizeInnerPath at h
  split_ifs at h
  obtain ⟨position, hposition, rfl⟩ := Option.map_eq_some_iff.mp h
  have hsame : names (logical position) = position := by
    apply names_logical
    apply proper_normalizeComponents _ (fun _ hm => absurd hm List.not_mem_nil) hposition
    exact fun name hm => names_proper path name (List.mem_filterMap.mpr ⟨_, hm, rfl⟩)
  rw [hsame]
  exact ⟨rfl, hposition⟩

theorem components_physical_any (rootfs : Bytes) (position : Position) (h : Proper position) :
    components (physical rootfs position) = components rootfs ++ position.map .normal := by
  by_cases hroot : rootfs = []
  · subst hroot
    cases position with
    | nil => rfl
    | cons name rest =>
      have hname := h name List.mem_cons_self
      have hpush : push [] name = name := by
        unfold push
        rw [if_neg (by rw [not_absolute_of_proper name hname]; decide), if_pos (Or.inl rfl)]
        rfl
      have hone : components name = [.normal name] := by
        have hsplit := splitOn_snoc [] name hname.2.2.2
        have hpieces : name.splitOn slash = [name] := by
          rw [List.nil_append, List.splitOn_cons_eq_if_modifyHead, if_pos (by simp)] at hsplit
          exact (List.cons.inj hsplit).2
        have hroot := not_absolute_of_proper name hname
        unfold isAbsolute at hroot
        unfold components
        rw [hpieces, hroot, if_neg nofun, if_neg (by simpa using hname.2.1),
          filterMap_pieces_proper [name] (by simpa using hname)]
        rfl
      have hrest := components_physical name rest hname.1
        fun n hm => h n (List.mem_cons_of_mem _ hm)
      show components (physical (push [] name) rest) = _
      rw [hpush, hrest, hone]
      rfl
  · exact components_physical rootfs position hroot h

/-- A place that was returned is returned again for its own path. -/
theorem resolvePosition_again (h : resolvePosition host tree rootfs target = .ok position) :
    resolvePosition host tree rootfs (logical position) = .ok position := by
  have hproper := resolvePosition_proper h
  obtain ⟨path, -, hrest⟩ := (bind_eq_ok _ _ _).mp h
  have hlast := resolveFrom_last 40 hrest
  unfold resolvePosition
  rw [normalizeInnerPath_logical hproper]
  show resolveFrom host tree rootfs (logical position) 40 (logical position) = _
  unfold resolveFrom
  rw [names_logical position hproper, hlast]
  rfl

theorem resolvePosition_plain (h : resolvePosition host tree rootfs target = .ok position) :
    tree.Plain position := by
  obtain ⟨path, -, hrest⟩ := (bind_eq_ok _ _ _).mp h
  exact findLink_none plain_nil (resolveFrom_last 40 hrest)

/-- The loop of `resolve_target` follows at most 40 links and ends. What it returns is the
rootfs followed by ordinary names, at each of which there is something other than a link,
and its path below the rootfs is resolved to it again. -/
theorem resolveTarget_contained (host : Host) (tree : Tree) (rootfs target : Bytes) :
    (∀ followed path, Follows host tree rootfs target followed path → followed ≤ 40) ∧
    (∀ path, normalizeInnerPath target = some path →
      ∃ followed last, Follows host tree rootfs target followed last ∧
        resolvePass host tree rootfs target followed last =
          (resolvePosition host tree rootfs target).map .inl) ∧
    ∀ p, resolveTarget host tree rootfs target = .ok p → ∃ position,
      p = physical rootfs position ∧ Proper position ∧
      components p = components rootfs ++ position.map .normal ∧
      (∀ way, way ≠ [] → way <+: position →
        ∃ kind, tree.kindAt way = some kind ∧ ∀ text, kind ≠ .symlink text) ∧
      (position ≠ [] → innerPath rootfs p target = .ok (logical position)) ∧
      resolveTarget host tree rootfs (logical position) = .ok p := by
  refine ⟨fun _ _ => follows_le, fun path hpath => ?_, fun p hp => ?_⟩
  · have hstart : Follows host tree rootfs target 0 path := .start hpath
    have hends := loop_ends 40 (Nat.le_refl 40) hstart
    unfold resolvePosition
    rw [hpath]
    exact hends
  · obtain ⟨position, hposition, rfl⟩ := (resolveTarget_eq_ok host tree rootfs target p).mp hp
    have hproper := resolvePosition_proper hposition
    have hcomponents := components_physical_any rootfs position hproper
    refine ⟨position, rfl, hproper, hcomponents, resolvePosition_plain hposition,
      fun hne => (innerPath_of_components hcomponents).mpr ⟨hne, rfl⟩, ?_⟩
    exact (resolveTarget_eq_ok host tree rootfs _ _).mpr
      ⟨position, resolvePosition_again hposition, rfl⟩

/-- `/usr/bin` is a link to `../opt/bin`. -/
def toolImage : Tree :=
  FileTree.ofEntries ⟨0, 0, 0o755⟩ [imageEntry [] "usr" .directory, imageEntry [] "opt" .directory,
    imageEntry [lit "opt"] "bin" .directory,
    imageEntry [lit "opt", lit "bin"] "tool" (.regular []),
    imageEntry [lit "usr"] "bin" (.symlink (lit "../opt/bin"))]

theorem resolveTarget_contained_tool :
    ∃ position, lit "/image/opt/bin/tool" = physical (lit "/image") position ∧ Proper position ∧
      resolveTarget plainHost toolImage (lit "/image") (logical position) =
        .ok (lit "/image/opt/bin/tool") := by
  obtain ⟨position, hp, hproper, -, -, -, hagain⟩ :=
    (resolveTarget_contained plainHost toolImage (lit "/image") (lit "/usr/bin/tool")).2.2
      (lit "/image/opt/bin/tool") (by decide +kernel)
  exact ⟨position, hp, hproper, hagain⟩

end Sandcamp.Sandrun
