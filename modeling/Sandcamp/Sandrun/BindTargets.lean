import Sandcamp.Sandrun.KernelWalk

/-!
# Missing bind targets (linux.rs:876-1038)

`ensure_bind_target_directory` keeps two notions of where it is: a place below the
rootfs that it goes down from, and the path it has been asked for so far, which it
resolves afresh at every link. They stay the same place: a name that is no link leads
both of them to the same entry, and at a link the first is replaced by the second.
-/

namespace Sandcamp.Sandrun
open Foundations Foundations.UnixPath Foundations.FileTree

variable {host : Host} {start tree tree' : Tree} {rootfs target path : Bytes}
  {resolved next : Position} {name : Bytes}

/-! ### One new entry -/

/-- An entry is new, and nothing else has changed. -/
structure Added (tree : Tree) (parent : Position) (name : Bytes) (node : Node Attributes)
    (tree' : Tree) : Prop where
  vacant : tree.Vacant parent name
  lookup : ∀ position, tree'.lookup position =
    if position = parent ++ [name] then some node else tree.lookup position

theorem Added.self {parent : Position} {node : Node Attributes}
    (h : Added tree parent name node tree') :
    tree'.lookup (parent ++ [name]) = some node := by
  rw [h.lookup, if_pos rfl]

theorem Added.extends {parent : Position} {node : Node Attributes}
    (h : Added tree parent name node tree') : tree.Extends tree' := by
  intro position found hfound
  have hne := h.vacant.ne hfound
  rw [h.lookup, if_neg hne]
  exact hfound

def createdNode (kind : FileKind) (mode : ℕ) : Node Attributes := ⟨kind, ⟨0, 0, mode⟩⟩

/-- Where there was nothing, an entry of exactly this mode is made. -/
theorem createEntry_eq_ok {parent : Position} {kind : FileKind} {mode : ℕ}
    {createOperation chmodOperation : String} (hmissing : tree.kindAt (parent ++ [name]) = none)
    (h : createEntry host rootfs parent name kind mode createOperation chmodOperation tree =
      .ok () tree') : Added tree parent name (createdNode kind mode) tree' := by
  have hnone : tree.lookup (parent ++ [name]) = none := Option.map_eq_none_iff.mp hmissing
  obtain ⟨creation, middle, hmake, hrest⟩ := (action_bind_eq_ok _ _ _ _ _).mp h
  unfold makeEntry at hmake
  by_cases hfault : host.fault (lit createOperation) (physical rootfs (parent ++ [name])) = true
  · rw [if_pos hfault] at hmake
    cases hmake
    cases hrest
  · rw [if_neg hfault] at hmake
    by_cases hvacant : tree.Vacant parent name
    · rw [FileTree.create, dif_pos hvacant] at hmake
      cases hmake
      obtain ⟨_, _, hattempt, hmode⟩ := (action_bind_eq_ok _ _ _ _ _).mp hrest
      obtain ⟨-, rfl⟩ := (reading_eq_ok _ _ _ _).mp hattempt
      cases hmode
      constructor
      · exact hvacant
      · intro position
        show (if position = parent ++ [name] then _ else _) = _
        by_cases hposition : position = parent ++ [name]
        · rw [if_pos hposition, if_pos hposition]
          show Option.map _ (if position = parent ++ [name] then _ else _) = _
          rw [if_pos hposition]
          rfl
        · rw [if_neg hposition, if_neg hposition]
          show (if position = parent ++ [name] then _ else _) = _
          rw [if_neg hposition]
    · rw [FileTree.create, dif_neg hvacant, hnone] at hmake
      cases hmake
      cases hrest

/-! ### One name of the way down -/

theorem lookUp_eq_ok {position : Position} {operation : String} {found : Option FileKind}
    (h : lookUp host rootfs position operation tree = .ok found tree') :
    attempt host operation (physical rootfs position) = .ok () ∧ found = tree.kindAt position ∧
      tree' = tree := by
  obtain ⟨_, middle, hcall, hread⟩ := (action_bind_eq_ok _ _ _ _ _).mp h
  obtain ⟨hattempt, rfl⟩ := (reading_eq_ok _ _ _ _).mp hcall
  obtain ⟨hkind, rfl⟩ := (reading_eq_ok _ _ _ _).mp hread
  exact ⟨hattempt, (Except.ok.inj hkind).symm, rfl⟩

/-- What one name can do: it is a link to a directory, a directory, or missing and made. -/
inductive Descent (host : Host) (tree : Tree) (rootfs path : Bytes) (resolved : Position)
    (name : Bytes) : Position → Tree → Prop
  | link {text : Bytes} {next : Position} :
      tree.kindAt (resolved ++ [name]) = some (.symlink text) →
      resolvePosition host tree rootfs path = .ok next →
      stat host tree rootfs next "bind_target_parent_stat_failed" = .ok .directory →
      Descent host tree rootfs path resolved name next tree
  | directory : tree.kindAt (resolved ++ [name]) = some .directory →
      Descent host tree rootfs path resolved name (resolved ++ [name]) tree
  | missing {tree' : Tree} :
      Added tree resolved name (createdNode .directory createdDirectoryMode) tree' →
      Descent host tree rootfs path resolved name (resolved ++ [name]) tree'

theorem enterDirectory_eq_ok
    (h : enterDirectory host rootfs path resolved name tree = .ok next tree') :
    attempt host "bind_target_parent_stat_failed" (physical rootfs (resolved ++ [name])) = .ok () ∧
      Descent host tree rootfs path resolved name next tree' := by
  obtain ⟨found, middle, hfound, hrest⟩ := (action_bind_eq_ok _ _ _ _ _).mp h
  obtain ⟨hattempt, rfl, rfl⟩ := lookUp_eq_ok hfound
  refine ⟨hattempt, ?_⟩
  cases hkind : middle.kindAt (resolved ++ [name]) with
  | none =>
    rw [hkind] at hrest
    obtain ⟨_, made, hcreate, hmade⟩ := (action_bind_eq_ok _ _ _ _ _).mp hrest
    obtain ⟨_, _, hlook, hlooked⟩ := (action_bind_eq_ok _ _ _ _ _).mp hmade
    obtain ⟨-, rfl⟩ := (reading_eq_ok _ _ _ _).mp hlook
    obtain ⟨_, _, hcheck, hend⟩ := (action_bind_eq_ok _ _ _ _ _).mp hlooked
    obtain ⟨-, rfl⟩ := (reading_eq_ok _ _ _ _).mp hcheck
    cases hend
    exact .missing (createEntry_eq_ok hkind hcreate)
  | some kind =>
    rw [hkind] at hrest
    cases kind with
    | symlink text =>
      obtain ⟨_, _, hfollow, hfollowed⟩ := (action_bind_eq_ok _ _ _ _ _).mp hrest
      obtain ⟨hresolve, rfl⟩ := (reading_eq_ok _ _ _ _).mp hfollow
      obtain ⟨_, _, hlook, hlooked⟩ := (action_bind_eq_ok _ _ _ _ _).mp hfollowed
      obtain ⟨hstat, rfl⟩ := (reading_eq_ok _ _ _ _).mp hlook
      obtain ⟨_, _, hcheck, hend⟩ := (action_bind_eq_ok _ _ _ _ _).mp hlooked
      obtain ⟨hsame, rfl⟩ := (reading_eq_ok _ _ _ _).mp hcheck
      cases hend
      rw [rejectIf_eq_ok, not_not] at hsame
      rw [hsame] at hstat
      exact .link hkind hresolve hstat
    | directory =>
      cases hrest
      exact .directory hkind
    | regular contents => cases hrest
    | other => cases hrest

/-! ### What the way down leaves behind -/

/-- From `start` the way down has come to a directory: there is no link on the way to it, and
all that is new are directories on that way. -/
structure Entered (start tree : Tree) (resolved : Position) : Prop where
  grown : start.Extends tree
  plain : tree.Plain resolved
  directory : tree.kindAt resolved = some .directory
  created : ∀ position node, start.lookup position = none → tree.lookup position = some node →
    position <+: resolved ∧ node = createdNode .directory createdDirectoryMode
  fresh : (∀ position, start.lookup position = none → tree.lookup position = none) ∨
    start.lookup resolved = none

theorem entered_start (tree : Tree) : Entered tree tree [] where
  grown := Extends.refl tree
  plain := plain_nil
  directory := tree.root
  created position node hnone hfound := by
    rw [hnone] at hfound
    cases hfound
  fresh := Or.inl fun _ h => h

/-- What lies in a new directory is new. -/
theorem Entered.nothing_new (h : Entered start tree resolved) {kind : FileKind}
    (hkind : tree.kindAt (resolved ++ [name]) = some kind) :
    ∀ position, start.lookup position = none → tree.lookup position = none := by
  rcases h.fresh with hnone | hnew
  · exact hnone
  · exfalso
    obtain ⟨node, hnode, -⟩ := Option.map_eq_some_iff.mp hkind
    have hmissing : start.lookup (resolved ++ [name]) = none := by
      rw [← Option.not_isSome_iff_eq_none]
      exact start.lookup_below_vacant resolved name (Option.isNone_iff_eq_none.mpr hnew)
    obtain ⟨hstart, -⟩ := h.created _ _ hmissing hnode
    have hlength := hstart.length_le
    rw [List.length_append, List.length_singleton] at hlength
    omega

theorem Entered.enter (h : Entered start tree resolved)
    (hstep : Descent host tree rootfs path resolved name next tree') :
    Entered start tree' next := by
  cases hstep with
  | link hkind hresolve hstat =>
    have hold := h.nothing_new hkind
    constructor
    · exact h.grown
    · exact resolvePosition_plain hresolve
    · exact stat_eq_ok hstat
    · intro position node hnone hfound
      rw [hold position hnone] at hfound
      cases hfound
    · exact Or.inl hold
  | directory hkind =>
    have hold := h.nothing_new hkind
    constructor
    · exact h.grown
    · exact plain_snoc h.plain hkind (by simp)
    · exact hkind
    · intro position node hnone hfound
      rw [hold position hnone] at hfound
      cases hfound
    · exact Or.inl hold
  | missing hadded =>
    have hentry : tree'.kindAt (resolved ++ [name]) = some .directory := by
      unfold kindAt
      rw [hadded.self]
      rfl
    have hplain : tree'.Plain resolved := by
      intro way hway hstart
      obtain ⟨kind, hkind, hlink⟩ := h.plain way hway hstart
      exact ⟨kind, hadded.extends.kindAt hkind, hlink⟩
    constructor
    · exact h.grown.trans hadded.extends
    · exact plain_snoc hplain hentry (by simp)
    · exact hentry
    · intro position node hnone hfound
      rw [hadded.lookup] at hfound
      by_cases hposition : position = resolved ++ [name]
      · rw [if_pos hposition] at hfound
        rw [hposition]
        exact ⟨List.prefix_refl _, (Option.some.inj hfound).symm⟩
      · rw [if_neg hposition] at hfound
        obtain ⟨hbefore, hnode⟩ := h.created position node hnone hfound
        exact ⟨hbefore.trans (List.prefix_append _ _), hnode⟩
    · right
      by_contra hsome
      obtain ⟨node, hnode⟩ := Option.ne_none_iff_exists'.mp hsome
      exact hadded.vacant.ne (h.grown _ _ hnode) rfl

theorem ensureBindTargetDirectory_entered (above : List Component)
    (h : Entered start tree resolved)
    (hrun : ensureBindTargetDirectory host rootfs target path resolved above tree =
      .ok next tree') : Entered start tree' next := by
  induction above generalizing path resolved tree with
  | nil =>
    cases hrun
    exact h
  | cons component rest ih =>
    cases component with
    | rootDir => exact ih h hrun
    | normal name =>
      obtain ⟨resolved', middle, henter, hrest⟩ := (action_bind_eq_ok _ _ _ _ _).mp hrun
      exact ih (h.enter (enterDirectory_eq_ok henter).2) hrest
    | curDir => cases hrun
    | parentDir => cases hrun

/-! ### What is read stays when the tree grows -/

theorem stat_stays (hextends : tree.Extends tree') {position : Position} {operation : String}
    {kind : FileKind} (h : stat host tree rootfs position operation = .ok kind) :
    stat host tree' rootfs position operation = .ok kind := by
  obtain ⟨_, hattempt, hkind⟩ := (bind_eq_ok _ _ _).mp h
  rw [okOr_eq_ok] at hkind
  rw [stat, bind_of_ok hattempt, hextends.kindAt hkind]
  rfl

theorem findLink_stays (hextends : tree.Extends tree') {parent : Position} (ns : List Bytes)
    {found : Option (Position × Bytes × Bytes × List Bytes)}
    (h : findLink host tree rootfs parent ns = .ok found) :
    findLink host tree' rootfs parent ns = .ok found := by
  induction ns generalizing parent with
  | nil => exact h
  | cons n ns ih =>
    obtain ⟨kind, hkind, hrest⟩ := (bind_eq_ok _ _ _).mp h
    rw [findLink, bind_of_ok (stat_stays hextends hkind)]
    cases kind with
    | symlink text => exact hrest
    | directory => exact ih hrest
    | regular contents => exact ih hrest
    | other => exact ih hrest

theorem resolveFrom_stays (hextends : tree.Extends tree') {position : Position} (left : ℕ)
    (h : resolveFrom host tree rootfs target left path = .ok position) :
    resolveFrom host tree' rootfs target left path = .ok position := by
  induction left generalizing path with
  | zero =>
    unfold resolveFrom at h ⊢
    obtain ⟨found, hfound, hrest⟩ := (bind_eq_ok _ _ _).mp h
    rw [bind_of_ok (findLink_stays hextends _ hfound)]
    exact hrest
  | succ left ih =>
    unfold resolveFrom at h ⊢
    obtain ⟨found, hfound, hrest⟩ := (bind_eq_ok _ _ _).mp h
    rw [bind_of_ok (findLink_stays hextends _ hfound)]
    cases found with
    | none => exact hrest
    | some link =>
      obtain ⟨_, hattempt, hgo⟩ := (bind_eq_ok _ _ _).mp hrest
      obtain ⟨following, hnext, hend⟩ := (bind_eq_ok _ _ _).mp hgo
      refine (bind_eq_ok _ _ _).mpr ⟨_, hattempt, (bind_eq_ok _ _ _).mpr ⟨following, hnext, ?_⟩⟩
      exact ih hend

/-- A target that leads somewhere leads there in every larger tree. -/
theorem resolvePosition_stays (hextends : tree.Extends tree') {position : Position}
    (h : resolvePosition host tree rootfs target = .ok position) :
    resolvePosition host tree' rootfs target = .ok position := by
  obtain ⟨inner, hinner, hrest⟩ := (bind_eq_ok _ _ _).mp h
  rw [resolvePosition, bind_of_ok hinner]
  exact resolveFrom_stays hextends 40 hrest

/-! ### One name more -/

theorem findLink_snoc_none {parent : Position} (ns : List Bytes)
    (h : findLink host tree rootfs parent ns = .ok none) :
    findLink host tree rootfs parent (ns ++ [name]) =
      findLink host tree rootfs (parent ++ ns) [name] := by
  induction ns generalizing parent with
  | nil => rw [List.nil_append, List.append_nil]
  | cons n ns ih =>
    obtain ⟨kind, hkind, hrest⟩ := (bind_eq_ok _ _ _).mp h
    have hsplit : parent ++ n :: ns = parent ++ [n] ++ ns := by simp
    rw [List.cons_append, findLink, bind_of_ok hkind, hsplit]
    cases kind with
    | symlink text => cases hrest
    | directory => exact ih hrest
    | regular contents => exact ih hrest
    | other => exact ih hrest

theorem findLink_snoc_some {parent above : Position} {link text : Bytes} {rest : List Bytes}
    (ns : List Bytes)
    (h : findLink host tree rootfs parent ns = .ok (some (above, link, text, rest))) :
    findLink host tree rootfs parent (ns ++ [name]) =
      .ok (some (above, link, text, rest ++ [name])) := by
  induction ns generalizing parent with
  | nil => cases h
  | cons n ns ih =>
    obtain ⟨kind, hkind, hrest⟩ := (bind_eq_ok _ _ _).mp h
    rw [List.cons_append, findLink, bind_of_ok hkind]
    cases kind with
    | symlink text =>
      cases hrest
      rfl
    | directory => exact ih hrest
    | regular contents => exact ih hrest
    | other => exact ih hrest

theorem normalizeInnerPath_push {p form : Bytes} (hname : ProperName name)
    (h : normalizeInnerPath p = some form) :
    normalizeInnerPath (push p name) = some (logical (names form ++ [name])) := by
  obtain ⟨hform, hnames⟩ := normalizeInnerPath_form h
  have hp : p ≠ [] := by
    rintro rfl
    cases h
  have habsolute : ¬isAbsolute p = false := by
    intro hrelative
    rw [normalizeInnerPath, if_pos hrelative] at h
    cases h
  rw [normalizeInnerPath, isAbsolute_push hp hname, if_neg habsolute, components_push p name hp hname,
    normalizeComponents_append, hnames]
  rfl

/-- What has been resolved goes on with a name that is no link. -/
theorem resolveFrom_snoc {path' : Bytes} {kind : FileKind} (left : ℕ)
    (hnames : names path' = names path ++ [name])
    (h : resolveFrom host tree rootfs target left path = .ok resolved)
    (hkind : stat host tree rootfs (resolved ++ [name]) "mount_target_resolve_failed" = .ok kind)
    (hlink : ∀ text, kind ≠ .symlink text) :
    resolveFrom host tree rootfs target left path' = .ok (resolved ++ [name]) := by
  have hend : findLink host tree rootfs resolved [name] = .ok none := by
    rw [findLink, bind_of_ok hkind]
    cases kind with
    | symlink text => exact absurd rfl (hlink text)
    | directory => rfl
    | regular contents => rfl
    | other => rfl
  have hproper : ProperName name := names_proper path' name (by rw [hnames]; simp)
  have hnone : findLink host tree rootfs [] (names path) = .ok none → resolved = names path →
      findLink host tree rootfs [] (names path') = .ok none := by
    rintro hfound rfl
    rw [hnames, findLink_snoc_none _ hfound]
    exact hend
  induction left generalizing path path' with
  | zero =>
    unfold resolveFrom at h ⊢
    obtain ⟨found, hfound, hrest⟩ := (bind_eq_ok _ _ _).mp h
    cases found with
    | none =>
      obtain rfl := Except.ok.inj hrest
      rw [bind_of_ok (hnone hfound rfl), hnames]
    | some link => cases hrest
  | succ left ih =>
    unfold resolveFrom at h ⊢
    obtain ⟨found, hfound, hrest⟩ := (bind_eq_ok _ _ _).mp h
    cases found with
    | none =>
      obtain rfl := Except.ok.inj hrest
      rw [bind_of_ok (hnone hfound rfl), hnames]
    | some found =>
      obtain ⟨above, link, text, rest⟩ := found
      obtain ⟨_, hattempt, hgo⟩ := (bind_eq_ok _ _ _).mp hrest
      obtain ⟨following, hnext, hlast⟩ := (bind_eq_ok _ _ _).mp hgo
      rw [okOr_eq_ok] at hnext
      have hredirect : redirect above text (rest ++ [name]) = push (redirect above text rest) name := by
        simp only [redirect, List.foldl_append]
        rfl
      have hfollowing : Proper (names following ++ [name]) :=
        proper_snoc (names_normalizeInnerPath hnext) hproper
      have hsame := names_logical _ hfollowing
      rw [hnames, bind_of_ok (findLink_snoc_some _ hfound)]
      show (do
        attempt host "mount_target_readlink_failed" (physical rootfs (above ++ [link]))
        let next ← okOr (normalizeInnerPath (redirect above text (rest ++ [name])))
          (invalidTarget target "target escapes rootfs through a symlink")
        resolveFrom host tree rootfs target left next) = _
      rw [bind_of_ok hattempt, hredirect, normalizeInnerPath_push hproper hnext]
      apply ih hsame hlast
      rintro hnolink rfl
      rw [hsame, findLink_snoc_none _ hnolink]
      exact hend

/-! ### The place and the path -/

/-- No `lstat` of `resolve_target` fails but for a missing entry. -/
def Host.Readable (host : Host) : Prop :=
  ∀ path, host.fault (lit "mount_target_resolve_failed") path = false

theorem stat_of_readable (hread : host.Readable) {position : Position} {kind : FileKind}
    (h : tree.kindAt position = some kind) :
    stat host tree rootfs position "mount_target_resolve_failed" = .ok kind := by
  have hattempt : attempt host "mount_target_resolve_failed" (physical rootfs position) = .ok () := by
    unfold attempt
    rw [rejectIf_eq_ok, hread]
    decide
  rw [stat, bind_of_ok hattempt, h]
  rfl

theorem resolvePosition_logical {ns : List Bytes} (h : Proper ns) :
    resolvePosition host tree rootfs (logical ns) =
      resolveFrom host tree rootfs (logical ns) 40 (logical ns) := by
  rw [resolvePosition, normalizeInnerPath_logical h]
  rfl

theorem resolvePosition_snoc (hread : host.Readable) {ns : List Bytes} {kind : FileKind}
    (hns : Proper (ns ++ [name]))
    (h : resolvePosition host tree rootfs (logical ns) = .ok resolved)
    (hkind : tree.kindAt (resolved ++ [name]) = some kind) (hlink : ∀ text, kind ≠ .symlink text) :
    resolvePosition host tree rootfs (logical (ns ++ [name])) = .ok (resolved ++ [name]) := by
  have hbefore : Proper ns := fun n hm => hns n (List.mem_append_left _ hm)
  rw [resolvePosition_logical hbefore] at h
  rw [resolvePosition_logical hns]
  have hnames : names (logical (ns ++ [name])) = names (logical ns) ++ [name] := by
    rw [names_logical _ hns, names_logical _ hbefore]
  have hone := resolveFrom_snoc 40 hnames h (stat_of_readable hread hkind) hlink
  exact resolveFrom_weaken _ (Nat.le_refl 40) hone

/-- The place that is kept is where the path leads. -/
theorem Descent.located (hread : host.Readable) {ns : List Bytes} (hns : Proper (ns ++ [name]))
    (h : resolvePosition host tree rootfs (logical ns) = .ok resolved)
    (hstep : Descent host tree rootfs (logical (ns ++ [name])) resolved name next tree') :
    resolvePosition host tree' rootfs (logical (ns ++ [name])) = .ok next := by
  cases hstep with
  | link hkind hresolve hstat => exact hresolve
  | directory hkind => exact resolvePosition_snoc hread hns h hkind (by simp)
  | missing hadded =>
    have hentry : tree'.kindAt (resolved ++ [name]) = some .directory := by
      unfold kindAt
      rw [hadded.self]
      rfl
    have hstays := resolvePosition_stays hadded.extends h
    exact resolvePosition_snoc hread hns hstays hentry (by simp)

theorem ensureBindTargetDirectory_located (hread : host.Readable) (ns ms : List Bytes)
    (hproper : Proper (ns ++ ms))
    (h : resolvePosition host tree rootfs (logical ns) = .ok resolved)
    (hrun : ensureBindTargetDirectory host rootfs target (logical ns) resolved (ms.map .normal) tree =
      .ok next tree') :
    resolvePosition host tree' rootfs (logical (ns ++ ms)) = .ok next := by
  induction ms generalizing ns resolved tree with
  | nil =>
    cases hrun
    rw [List.append_nil]
    exact h
  | cons m ms ih =>
    have hsplit : ns ++ m :: ms = ns ++ [m] ++ ms := by simp
    rw [hsplit] at hproper ⊢
    have hfirst : Proper (ns ++ [m]) := fun n hm => hproper n (List.mem_append_left _ hm)
    obtain ⟨resolved', middle, henter, hrest⟩ := (action_bind_eq_ok _ _ _ _ _).mp hrun
    have hpath : push (logical ns) m = logical (ns ++ [m]) := physical_snoc ns m
    rw [hpath] at henter hrest
    exact ih (ns ++ [m]) hproper
      ((enterDirectory_eq_ok henter).2.located hread hfirst h) hrest

/-! ### A second time -/

theorem lookUp_again {position : Position} {operation : String}
    (h : attempt host operation (physical rootfs position) = .ok ()) :
    lookUp host rootfs position operation tree = .ok (tree.kindAt position) tree := by
  apply (action_bind_eq_ok _ _ _ _ _).mpr
  exact ⟨(), tree, (reading_eq_ok _ _ _ _).mpr ⟨h, rfl⟩, (reading_eq_ok _ _ _ _).mpr ⟨rfl, rfl⟩⟩

/-- The same name in a tree that holds all that was found and made. -/
theorem enterDirectory_again {later : Tree}
    (h : enterDirectory host rootfs path resolved name tree = .ok next tree')
    (hextends : tree'.Extends later) :
    enterDirectory host rootfs path resolved name later = .ok next later := by
  obtain ⟨hattempt, hstep⟩ := enterDirectory_eq_ok h
  have hfound : lookUp host rootfs (resolved ++ [name]) _ later =
      .ok (later.kindAt (resolved ++ [name])) later := lookUp_again hattempt
  apply (action_bind_eq_ok _ _ _ _ _).mpr
  refine ⟨_, later, hfound, ?_⟩
  cases hstep with
  | link hkind hresolve hstat =>
    rw [hextends.kindAt hkind]
    apply (action_bind_eq_ok _ _ _ _ _).mpr
    refine ⟨next, later, (reading_eq_ok _ _ _ _).mpr ⟨resolvePosition_stays hextends hresolve, rfl⟩, ?_⟩
    apply (action_bind_eq_ok _ _ _ _ _).mpr
    refine ⟨_, later, (reading_eq_ok _ _ _ _).mpr ⟨stat_stays hextends hstat, rfl⟩, rfl⟩
  | directory hkind =>
    rw [hextends.kindAt hkind]
    rfl
  | missing hadded =>
    have hentry : tree'.kindAt (resolved ++ [name]) = some .directory := by
      unfold kindAt
      rw [hadded.self]
      rfl
    rw [hextends.kindAt hentry]
    rfl

theorem ensureBindTargetDirectory_again {later : Tree} (above : List Component)
    (h : ensureBindTargetDirectory host rootfs target path resolved above tree = .ok next tree')
    (hextends : tree'.Extends later) :
    ensureBindTargetDirectory host rootfs target path resolved above later = .ok next later := by
  induction above generalizing path resolved tree with
  | nil =>
    cases h
    rfl
  | cons component rest ih =>
    cases component with
    | rootDir => exact ih h
    | normal name =>
      obtain ⟨resolved', middle, henter, hrest⟩ := (action_bind_eq_ok _ _ _ _ _).mp h
      have hgrows := (grows_ensureBindTargetDirectory host rootfs _ _ _ rest).of_ok hrest
      apply (action_bind_eq_ok _ _ _ _ _).mpr
      exact ⟨resolved', later, enterDirectory_again henter (hgrows.trans hextends), ih hrest⟩
    | curDir => cases h
    | parentDir => cases h

/-! ### The target itself -/

/-- What is made for a source of this kind. -/
def createdLeaf : FileKind → Option (Node Attributes)
  | .directory => some (createdNode .directory createdDirectoryMode)
  | .regular _ => some (createdNode (.regular []) createdFileMode)
  | .symlink _ | .other => none

theorem createBindTarget_eq_ok {parent : Position} {source : FileKind}
    (hmissing : tree.kindAt (parent ++ [name]) = none)
    (h : createBindTarget host rootfs target parent name source tree = .ok () tree') :
    ∃ node, createdLeaf source = some node ∧ Added tree parent name node tree' := by
  cases source with
  | directory => exact ⟨_, rfl, createEntry_eq_ok hmissing h⟩
  | regular contents => exact ⟨_, rfl, createEntry_eq_ok hmissing h⟩
  | symlink text => cases h
  | other => cases h

/-- How a call that succeeds has gone: down to a directory, where the last name was found, or
missing and made. -/
structure Ensuring (host : Host) (rootfs : Bytes) (bind : Bind) (tree : Tree) (source : FileKind)
    (above : List Component) (directory : Position) (name : Bytes) (middle tree' : Tree) :
    Prop where
  read : ∃ canonical, bindSource host tree bind.source = .ok (canonical, source)
  parent_eq : parent bind.target = some above
  name_eq : fileName bind.target = some name
  down : ensureBindTargetDirectory host rootfs (fromComponents above) (lit "/") [] above tree =
    .ok directory middle
  called : attempt host "bind_target_stat_failed" (physical rootfs (directory ++ [name])) = .ok ()
  leaf : ((middle.kindAt (directory ++ [name])).isSome ∧ tree' = middle) ∨
    ∃ node, createdLeaf source = some node ∧ Added middle directory name node tree'

theorem ensureBindTarget_eq_ok {bind : Bind}
    (h : ensureBindTarget host rootfs bind tree = .ok () tree') :
    ∃ source above directory name middle,
      Ensuring host rootfs bind tree source above directory name middle tree' := by
  obtain ⟨found, _, hfind, hrun⟩ := (action_bind_eq_ok _ _ _ _ _).mp h
  obtain ⟨hsource, rfl⟩ := (reading_eq_ok _ _ _ _).mp hfind
  obtain ⟨above, _, hparent, hrest⟩ := (action_bind_eq_ok _ _ _ _ _).mp hrun
  obtain ⟨habove, rfl⟩ := (reading_eq_ok _ _ _ _).mp hparent
  obtain ⟨directory, middle, hdown, hlast⟩ := (action_bind_eq_ok _ _ _ _ _).mp hrest
  obtain ⟨name, _, hfile, hleaf⟩ := (action_bind_eq_ok _ _ _ _ _).mp hlast
  obtain ⟨hname, rfl⟩ := (reading_eq_ok _ _ _ _).mp hfile
  obtain ⟨kind, _, hlook, hend⟩ := (action_bind_eq_ok _ _ _ _ _).mp hleaf
  obtain ⟨hattempt, rfl, rfl⟩ := lookUp_eq_ok hlook
  rw [okOr_eq_ok] at habove hname
  refine ⟨found.2, above, directory, name, _, ⟨found.1, hsource⟩, habove, hname, hdown, hattempt, ?_⟩
  cases hkind : FileTree.kindAt _ (directory ++ [name]) with
  | none =>
    rw [hkind] at hend
    exact Or.inr (createBindTarget_eq_ok hkind hend)
  | some kind =>
    rw [hkind] at hend
    cases hend
    exact Or.inl ⟨rfl, rfl⟩

section Ensuring

variable {bind : Bind} {source : FileKind} {above : List Component} {directory : Position}
  {middle : Tree}

theorem Ensuring.grown
    (h : Ensuring host rootfs bind tree source above directory name middle tree') :
    middle.Extends tree' := by
  rcases h.leaf with ⟨-, rfl⟩ | ⟨node, -, hadded⟩
  · exact Extends.refl _
  · exact hadded.extends

theorem Ensuring.entered
    (h : Ensuring host rootfs bind tree source above directory name middle tree') :
    Entered tree middle directory :=
  ensureBindTargetDirectory_entered above (entered_start tree) h.down

/-- What is new lies on the way to the target, and is a directory unless it is the target. -/
theorem Ensuring.created
    (h : Ensuring host rootfs bind tree source above directory name middle tree')
    {position : Position} {node : Node Attributes} (hnone : tree.lookup position = none)
    (hfound : tree'.lookup position = some node) :
    position = directory ++ [name] ∨
      (position <+: directory ∧ node = createdNode .directory createdDirectoryMode) := by
  rcases h.leaf with ⟨-, rfl⟩ | ⟨leaf, -, hadded⟩
  · exact Or.inr (h.entered.created position node hnone hfound)
  · by_cases hposition : position = directory ++ [name]
    · exact Or.inl hposition
    · rw [hadded.lookup, if_neg hposition] at hfound
      exact Or.inr (h.entered.created position node hnone hfound)

theorem Ensuring.made
    (h : Ensuring host rootfs bind tree source above directory name middle tree')
    (hmissing : tree.lookup (directory ++ [name]) = none) :
    ∃ node, createdLeaf source = some node ∧ Added middle directory name node tree' := by
  rcases h.leaf with ⟨hsome, -⟩ | hmade
  · exfalso
    obtain ⟨kind, hkind⟩ := Option.isSome_iff_exists.mp hsome
    obtain ⟨node, hnode, -⟩ := Option.map_eq_some_iff.mp hkind
    obtain ⟨hbefore, -⟩ := h.entered.created _ node hmissing hnode
    have hlength := hbefore.length_le
    rw [List.length_append, List.length_singleton] at hlength
    omega
  · exact hmade

theorem components_snoc_cases {p : Bytes} (hclean : cleanAbsolute p = true)
    (habove : parent p = some above) (hname : fileName p = some name) :
    above = .rootDir :: (names p).dropLast.map .normal ∧
      names p = (names p).dropLast ++ [name] := by
  have hcomponents := components_of_cleanAbsolute p hclean
  unfold parent at habove
  unfold fileName at hname
  rw [hcomponents] at habove hname
  rcases List.eq_nil_or_concat' (names p) with hnil | ⟨before, last, hlast⟩
  · rw [hnil] at hname
    cases hname
  · rw [hlast] at habove hname ⊢
    rw [List.map_append, ← List.cons_append] at habove hname
    rw [List.map_singleton, List.getLast?_concat] at habove hname
    obtain rfl := Option.some.inj hname
    rw [List.dropLast_concat] at habove ⊢
    exact ⟨(Option.some.inj habove).symm, rfl⟩

/-- A clean path is resolved as it is written from its names. -/
theorem resolvePosition_clean (hclean : cleanAbsolute target = true) {position : Position}
    (h : resolvePosition host tree rootfs (logical (names target)) = .ok position) :
    resolvePosition host tree rootfs target = .ok position := by
  have habsolute : isAbsolute target = true := by
    unfold cleanAbsolute at hclean
    exact (Bool.and_eq_true _ _ ▸ hclean).1
  have hform : normalizeInnerPath target = some (logical (names target)) := by
    rw [normalizeInnerPath, if_neg (by rw [habsolute]; decide),
      components_of_cleanAbsolute target hclean, normalizeComponents, normalizeComponents_normal]
    rfl
  have hproper : Proper (names target) := names_proper target
  rw [resolvePosition, hform]
  rw [resolvePosition_logical hproper] at h
  exact resolveFrom_weaken target (Nat.le_refl 40) h

theorem Ensuring.located (hread : host.Readable) (hclean : cleanAbsolute bind.target = true)
    (h : Ensuring host rootfs bind tree source above directory name middle tree') :
    resolvePosition host middle rootfs (logical (names bind.target).dropLast) = .ok directory := by
  obtain ⟨habove, -⟩ := components_snoc_cases hclean h.parent_eq h.name_eq
  have hdown := h.down
  rw [habove] at hdown
  have hnil : Proper [] := by simp [Proper]
  have hroot : resolvePosition host tree rootfs (logical []) = .ok [] := by
    rw [resolvePosition_logical hnil]
    unfold resolveFrom
    rw [names_logical [] hnil]
    rfl
  apply ensureBindTargetDirectory_located hread [] _ _ hroot hdown
  intro n hm
  exact names_proper bind.target n (List.dropLast_subset _ hm)

theorem Ensuring.leads (hread : host.Readable) (hclean : cleanAbsolute bind.target = true)
    (h : Ensuring host rootfs bind tree source above directory name middle tree')
    (hmissing : tree.lookup (directory ++ [name]) = none) :
    resolvePosition host tree' rootfs bind.target = .ok (directory ++ [name]) := by
  obtain ⟨node, hleaf, hadded⟩ := h.made hmissing
  obtain ⟨-, hnames⟩ := components_snoc_cases hclean h.parent_eq h.name_eq
  have hbefore := resolvePosition_stays hadded.extends (h.located hread hclean)
  have hkind : tree'.kindAt (directory ++ [name]) = some node.kind := by
    unfold kindAt
    rw [hadded.self]
    rfl
  have hlink : ∀ text, node.kind ≠ .symlink text := by
    intro text heq
    cases source with
    | directory =>
      obtain rfl := Option.some.inj hleaf
      cases heq
    | regular contents =>
      obtain rfl := Option.some.inj hleaf
      cases heq
    | symlink text => cases hleaf
    | other => cases hleaf
  apply resolvePosition_clean hclean
  rw [hnames]
  apply resolvePosition_snoc hread _ hbefore hkind hlink
  rw [← hnames]
  exact names_proper bind.target

/-- On what it has left, the call finds all it needs. -/
theorem Ensuring.again
    (h : Ensuring host rootfs bind tree source above directory name middle tree')
    (hsource : ∃ canonical, bindSource host tree' bind.source = .ok (canonical, source)) :
    ensureBindTarget host rootfs bind tree' = .ok () tree' := by
  obtain ⟨canonical, hsource⟩ := hsource
  have hleaf : (tree'.kindAt (directory ++ [name])).isSome := by
    rcases h.leaf with ⟨hsome, rfl⟩ | ⟨node, -, hadded⟩
    · exact hsome
    · unfold kindAt
      rw [hadded.self]
      rfl
  obtain ⟨kind, hkind⟩ := Option.isSome_iff_exists.mp hleaf
  apply (action_bind_eq_ok _ _ _ _ _).mpr
  refine ⟨(canonical, source), tree', (reading_eq_ok _ _ _ _).mpr ⟨hsource, rfl⟩, ?_⟩
  apply (action_bind_eq_ok _ _ _ _ _).mpr
  refine ⟨above, tree', (reading_eq_ok _ _ _ _).mpr ⟨(okOr_eq_ok _ _ _).mpr h.parent_eq, rfl⟩, ?_⟩
  apply (action_bind_eq_ok _ _ _ _ _).mpr
  refine ⟨directory, tree', ensureBindTargetDirectory_again above h.down h.grown, ?_⟩
  apply (action_bind_eq_ok _ _ _ _ _).mpr
  refine ⟨name, tree', (reading_eq_ok _ _ _ _).mpr ⟨(okOr_eq_ok _ _ _).mpr h.name_eq, rfl⟩, ?_⟩
  apply (action_bind_eq_ok _ _ _ _ _).mpr
  refine ⟨some kind, tree', ?_, rfl⟩
  rw [← hkind]
  exact lookUp_again h.called

end Ensuring

end Sandcamp.Sandrun
