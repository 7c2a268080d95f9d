import Sandcamp.Sandrun.Resolution

/-!
# Targets and the kernel's walk (linux.rs:583-615, 1101-1176)

`resolve_target` takes `..` and `.` out of the text of a link before anything in front of
them has been looked at; the kernel goes to the parent of the directory it has reached.
The two come to the same place as long as that reading of a text is harmless.
-/

namespace Sandcamp.Sandrun
open Foundations Foundations.UnixPath Foundations.FileTree

variable {host : Host} {tree : Tree} {rootfs target : Bytes} {parent position : Position}

/-! ### Reading a path before walking it -/

theorem normalizeComponents_append (xs ys : List Component) (stack : List Bytes) :
    normalizeComponents (xs ++ ys) stack =
      (normalizeComponents xs stack).bind (normalizeComponents ys) := by
  induction xs generalizing stack with
  | nil => rfl
  | cons x xs ih =>
    cases x with
    | rootDir => exact ih stack
    | curDir => exact ih stack
    | normal name => exact ih (stack ++ [name])
    | parentDir =>
      rw [List.cons_append, normalizeComponents, normalizeComponents]
      split
      · rfl
      · exact ih stack.dropLast

/-- The names that are left when the pieces are read from here. -/
def readPieces (stack pieces : List Bytes) : Option (List Bytes) :=
  normalizeComponents (pieces.filterMap pieceComponent) stack

theorem readPieces_append (stack xs ys : List Bytes) :
    readPieces stack (xs ++ ys) = (readPieces stack xs).bind fun middle => readPieces middle ys := by
  unfold readPieces
  rw [List.filterMap_append, normalizeComponents_append]

theorem readPieces_proper (stack ns : List Bytes) (h : Proper ns) :
    readPieces stack ns = some (stack ++ ns) := by
  rw [readPieces, filterMap_pieces_proper ns h, normalizeComponents_normal]

theorem normalizeComponents_pieces (path : Bytes) (stack : List Bytes) :
    normalizeComponents (components path) stack = readPieces stack (path.splitOn slash) := by
  simp only [components]
  split
  · rfl
  · split
    · rfl
    · rfl

/-- A relative path read after another one. -/
theorem readPieces_push (stack : List Bytes) (p c : Bytes) (h : isAbsolute c = false) :
    readPieces stack ((push p c).splitOn slash) =
      readPieces stack (p.splitOn slash ++ c.splitOn slash) := by
  unfold push
  rw [if_neg (by rw [h]; decide)]
  split
  · rename_i hend
    rcases hend with rfl | hlast
    · rfl
    · obtain ⟨q, rfl⟩ := List.getLast?_eq_some_iff.mp hlast
      have hshape : q ++ [slash] ++ c = q ++ slash :: c := by simp
      have hend : (q ++ [slash]).splitOn slash = q.splitOn slash ++ [[]] := splitOn_snoc q [] (by simp)
      rw [hshape, splitOn_append_slash, hend]
      unfold readPieces
      simp [List.filterMap_append, pieceComponent]
  · rw [splitOn_append_slash]

theorem readPieces_foldl_push (stack : List Bytes) (p : Bytes) (ns : List Bytes) (h : Proper ns) :
    readPieces stack ((ns.foldl push p).splitOn slash) =
      readPieces stack (p.splitOn slash ++ ns) := by
  induction ns generalizing p with
  | nil => rw [List.foldl_nil, List.append_nil]
  | cons n ns ih =>
    have hn := h n List.mem_cons_self
    rw [List.foldl_cons, ih (push p n) fun m hm => h m (List.mem_cons_of_mem _ hm),
      readPieces_append, readPieces_push stack p n (not_absolute_of_proper n hn), ← readPieces_append,
      splitOn_of_not_mem n hn.2.2.2, List.append_assoc]
    rfl

theorem readPieces_logical (h : Proper position) :
    readPieces [] ((logical position).splitOn slash) = some position := by
  have hform := (normalizeInnerPath_form (normalizeInnerPath_logical h)).2
  rw [normalizeComponents_pieces, names_logical position h] at hform
  exact hform

/-- The path to go on with at a link reads the link's text where the link stands. -/
theorem readPieces_redirect {link : Bytes} {rest : List Bytes} (hparent : Proper parent)
    (hrest : Proper rest) :
    normalizeComponents (components (redirect parent link rest)) [] =
      readPieces (linkStart parent link) (link.splitOn slash ++ rest) := by
  rw [normalizeComponents_pieces, redirect, readPieces_foldl_push _ _ _ hrest]
  unfold linkStart
  split
  · rfl
  · rename_i hrelative
    rw [readPieces_append, readPieces_push _ _ _ (by simpa using hrelative), readPieces_append,
      readPieces_logical hparent, Option.bind_some, readPieces_append]

/-! ### The kernel's walk -/

/-- Reading the pieces first leads the walk nowhere else. -/
def Harmless (tree : Tree) (start : Position) (pieces : List Bytes) : Prop :=
  ∀ read there, readPieces start pieces = some read → tree.Walk [] read there →
    tree.Walk start pieces there

theorem physical_eq (p : Bytes) (ns : List Bytes) (h : Proper ns) (hp : p ≠ [])
    (hend : p.getLast? ≠ some slash) : physical p ns = p ++ ns.flatMap fun n => slash :: n := by
  induction ns generalizing p with
  | nil => rw [List.flatMap_nil, List.append_nil]; rfl
  | cons n ns ih =>
    have hn := h n List.mem_cons_self
    have hpush : push p n = p ++ slash :: n := by
      unfold push
      rw [if_neg (by rw [not_absolute_of_proper n hn]; decide), if_neg (not_or.mpr ⟨hp, hend⟩)]
    have hlast : (p ++ slash :: n).getLast? ≠ some slash := by
      rw [List.getLast?_append_of_ne_nil _ (by simp), List.getLast?_cons_of_ne_nil hn.1]
      intro hslash
      exact hn.2.2.2 (List.mem_of_getLast? hslash)
    show physical (push p n) ns = _
    rw [hpush, ih _ (fun m hm => h m (List.mem_cons_of_mem _ hm)) (by simp) hlast,
      List.flatMap_cons, List.append_assoc]

theorem logical_eq_absolute (h : Proper position) : logical position = absolute position := by
  cases position with
  | nil => rfl
  | cons n ns =>
    have hn := h n List.mem_cons_self
    have hpush : push (lit "/") n = slash :: n := by
      unfold push
      rw [if_neg (by rw [not_absolute_of_proper n hn]; decide), if_pos (Or.inr (by decide))]
      rfl
    have hlast : (slash :: n).getLast? ≠ some slash := by
      rw [List.getLast?_cons_of_ne_nil hn.1]
      intro hslash
      exact hn.2.2.2 (List.mem_of_getLast? hslash)
    show physical (push (lit "/") n) ns = _
    rw [hpush, physical_eq _ ns (fun m hm => h m (List.mem_cons_of_mem _ hm)) (by simp) hlast]
    rfl

theorem walk_stay_root {rest there : Position} :
    tree.Walk [] ([] :: rest) there ↔ tree.Walk [] rest there := by
  constructor
  · intro h
    cases h with
    | stay _ _ hrest => exact hrest
    | enter hkind _ _ => exact absurd rfl (proper_of_kindAt hkind).1
    | follow hkind _ => exact absurd rfl (proper_of_kindAt hkind).1
  · intro h
    exact .stay (Or.inl rfl) tree.root h

/-- The walk of a path written from names. -/
theorem walk_logical (h : Proper position) {there : Position} :
    tree.Walk [] ((logical position).splitOn slash) there ↔ tree.Walk [] position there := by
  rw [logical_eq_absolute h]
  cases position with
  | nil =>
    have hpieces : (absolute []).splitOn slash = [[], []] := by decide
    rw [hpieces, walk_stay_root, walk_stay_root]
  | cons n ns =>
    rw [absolute_cons, splitOn_flatMap _ fun m hm => (h m hm).2.2.2, walk_stay_root]

/-! ### Where the loop has come -/

/-- More links to follow, or another target to report, change no result. -/
theorem resolveFrom_weaken (target' : Bytes) {left left' : ℕ} (hle : left ≤ left') {path : Bytes}
    (h : resolveFrom host tree rootfs target left path = .ok position) :
    resolveFrom host tree rootfs target' left' path = .ok position := by
  induction left generalizing left' path with
  | zero =>
    unfold resolveFrom at h ⊢
    obtain ⟨found, hfound, hrest⟩ := (bind_eq_ok _ _ _).mp h
    cases found with
    | none => exact (bind_eq_ok _ _ _).mpr ⟨none, hfound, hrest⟩
    | some link => cases hrest
  | succ left ih =>
    unfold resolveFrom at h ⊢
    obtain ⟨found, hfound, hrest⟩ := (bind_eq_ok _ _ _).mp h
    cases found with
    | none => exact (bind_eq_ok _ _ _).mpr ⟨none, hfound, hrest⟩
    | some found =>
      obtain ⟨parent, name, link, rest⟩ := found
      obtain ⟨_, hread, hrest⟩ := (bind_eq_ok _ _ _).mp hrest
      obtain ⟨next, hnext, hrest⟩ := (bind_eq_ok _ _ _).mp hrest
      rw [okOr_eq_ok] at hnext
      cases left' with
      | zero => omega
      | succ left' =>
        have hlast := ih (by omega : left ≤ left') hrest
        refine (bind_eq_ok _ _ _).mpr ⟨_, hfound, (bind_eq_ok _ _ _).mpr ⟨_, hread, ?_⟩⟩
        exact (bind_eq_ok _ _ _).mpr ⟨next, (okOr_eq_ok _ _ _).mpr hnext, hlast⟩

/-- Wherever the loop has come, what is left of it has the result of the whole. -/
theorem resolveFrom_follows {followed : ℕ} {path : Bytes}
    (h : resolvePosition host tree rootfs target = .ok position)
    (hpath : Follows host tree rootfs target followed path) :
    resolveFrom host tree rootfs target (40 - followed) path = .ok position := by
  induction hpath with
  | @start path hpath =>
    unfold resolvePosition at h
    rw [hpath] at h
    exact h
  | @next followed path next _ hpass ih =>
    have hfew := (resolvePass_inr hpass).1
    have hcount : 40 - (40 - followed) = followed := by omega
    rw [resolveFrom_eq (40 - followed) path (by omega), hcount, hpass] at ih
    have hleft : 40 - followed - 1 = 40 - (followed + 1) := by omega
    rw [hleft] at ih
    exact ih

theorem follows_logical {followed : ℕ} {path : Bytes}
    (h : Follows host tree rootfs target followed path) :
    path = logical (names path) ∧ Proper (names path) := by
  cases h with
  | start hpath => exact ⟨(normalizeInnerPath_form hpath).1, names_normalizeInnerPath hpath⟩
  | next _ hpass =>
    obtain ⟨-, parent, name, link, rest, -, hnext⟩ := resolvePass_inr hpass
    exact ⟨(normalizeInnerPath_form hnext).1, names_normalizeInnerPath hnext⟩

theorem resolvePosition_follows {followed : ℕ} {path : Bytes}
    (h : resolvePosition host tree rootfs target = .ok position)
    (hpath : Follows host tree rootfs target followed path) :
    resolvePosition host tree rootfs path = .ok position := by
  obtain ⟨hform, hproper⟩ := follows_logical hpath
  have hrest := resolveFrom_weaken path (by omega : 40 - followed ≤ 40)
    (resolveFrom_follows h hpath)
  unfold resolvePosition
  rw [hform, normalizeInnerPath_logical hproper, ← hform]
  exact hrest

/-- What the loop goes on with at a link, and how the kernel goes on there. -/
theorem link_pieces {path next : Bytes} {name link : Bytes} {rest : List Bytes}
    (hfound : findLink host tree rootfs [] (names path) = .ok (some (parent, name, link, rest)))
    (hnext : normalizeInnerPath (redirect parent link rest) = some next) :
    readPieces (linkStart parent link) (link.splitOn slash ++ rest) = some (names next) ∧
      ∀ there, tree.Walk [] (names path) there ↔
        tree.Walk (linkStart parent link) (link.splitOn slash ++ rest) there := by
  obtain ⟨hpath, hplain, hlink⟩ := findLink_some plain_nil hfound
  rw [List.nil_append] at hpath
  have hproper : Proper (names path) := names_proper path
  rw [hpath] at hproper ⊢
  have hparent : Proper parent := fun n hm => hproper n (List.mem_append_left _ hm)
  have hrest : Proper rest := fun n hm =>
    hproper n (List.mem_append_right _ (List.mem_cons_of_mem _ hm))
  have hform := (normalizeInnerPath_form hnext).2
  rw [readPieces_redirect hparent hrest] at hform
  exact ⟨hform, fun there => walk_link hplain hlink⟩

/-- Every text that is read on the way to the result is harmless. -/
def ReadsHarmless (host : Host) (tree : Tree) (rootfs target : Bytes) : Prop :=
  Harmless tree [] (target.splitOn slash) ∧
  ∀ followed path parent name link rest, Follows host tree rootfs target followed path →
    findLink host tree rootfs [] (names path) = .ok (some (parent, name, link, rest)) →
    Harmless tree (linkStart parent link) (link.splitOn slash ++ rest)

theorem walk_follows (left : ℕ) (hleft : left ≤ 40)
    (hreads : ReadsHarmless host tree rootfs target) {path : Bytes}
    (hpath : Follows host tree rootfs target (40 - left) path)
    (h : resolveFrom host tree rootfs target left path = .ok position) :
    tree.Walk [] (names path) position := by
  induction left using Nat.strongRecOn generalizing path with
  | _ left ih =>
    rcases resolveFrom_eq_ok hleft h with hpass | ⟨less, next, rfl, hpass, hless⟩
    · obtain ⟨hfound, rfl⟩ := resolvePass_inl hpass
      apply walk_plain
      exact findLink_none plain_nil hfound
    · obtain ⟨-, parent, name, link, rest, hfound, hnext⟩ := resolvePass_inr hpass
      obtain ⟨hread, hwalk⟩ := link_pieces hfound hnext
      have hcount : 40 - (less + 1) + 1 = 40 - less := by omega
      have hfollows := Follows.next hpath hpass
      rw [hcount] at hfollows
      have hrest := ih less (by omega) (by omega) hfollows hless
      exact (hwalk position).mpr (hreads.2 _ path parent name link rest hpath hfound _ _ hread hrest)

/-! ### Readings that are harmless -/

theorem harmless_proper {ns : List Bytes} (hparent : tree.Plain parent) (h : Proper ns) :
    Harmless tree parent ns := by
  intro read there hread hwalk
  rw [readPieces_proper parent ns h] at hread
  obtain rfl := Option.some.inj hread
  obtain ⟨here, hfirst, hrest⟩ := walk_append.mp hwalk
  obtain rfl := hfirst.unique (walk_plain hparent)
  exact hrest

theorem harmless_stay {piece : Bytes} {pieces : List Bytes} (hpiece : piece = [] ∨ piece = dot)
    (hdirectory : tree.kindAt parent = some .directory) (h : Harmless tree parent pieces) :
    Harmless tree parent (piece :: pieces) := by
  intro read there hread hwalk
  have hnothing : pieceComponent piece = none := by
    unfold pieceComponent
    rw [if_pos hpiece]
  unfold readPieces at hread
  rw [List.filterMap_cons, hnothing] at hread
  exact .stay hpiece hdirectory (h read there hread hwalk)

theorem harmless_up {pieces : List Bytes} (hdirectory : tree.kindAt parent = some .directory)
    (h : Harmless tree parent.dropLast pieces) : Harmless tree parent (dotDot :: pieces) := by
  intro read there hread hwalk
  have hrest : readPieces parent.dropLast pieces = some read := by
    unfold readPieces at hread
    rw [List.filterMap_cons, show pieceComponent dotDot = some .parentDir by decide] at hread
    simp only [normalizeComponents] at hread
    split_ifs at hread
    exact hread
  exact .up hdirectory (h read there hrest hwalk)

/-- The text of a link that goes up first and then down, or down from the root. -/
def Rising (text : Bytes) : Prop :=
  ∃ ns, Proper ns ∧
    (text = absolute ns ∨ ∃ ups, text.splitOn slash = List.replicate ups dotDot ++ ns)

theorem harmless_ups {ns : List Bytes} (ups : ℕ) (hns : Proper ns) (hparent : tree.Plain parent)
    (hdirectory : tree.kindAt parent = some .directory) :
    Harmless tree parent (List.replicate ups dotDot ++ ns) := by
  induction ups generalizing parent with
  | zero => exact harmless_proper hparent hns
  | succ ups ih =>
    rw [List.replicate_succ, List.cons_append]
    have habove : tree.kindAt parent.dropLast = some .directory := by
      cases parent using List.reverseRecOn with
      | nil => exact hdirectory
      | append_singleton above name =>
        rw [List.dropLast_concat]
        exact tree.parents above name (isSome_of_kindAt hdirectory)
    have hshorter : tree.Plain parent.dropLast := by
      apply hparent.start
      exact List.dropLast_prefix parent
    exact harmless_up hdirectory (ih hshorter habove)

theorem harmless_absolute {ns rest : List Bytes} (hns : Proper ns) (hrest : Proper rest) :
    Harmless tree [] ((absolute ns).splitOn slash ++ rest) := by
  have hroot : ∀ {pieces : List Bytes}, Harmless tree [] pieces → Harmless tree [] ([] :: pieces) :=
    fun h => harmless_stay (Or.inl rfl) tree.root h
  cases ns with
  | nil =>
    have hpieces : (absolute []).splitOn slash = [[], []] := by decide
    rw [hpieces]
    exact hroot (hroot (harmless_proper plain_nil hrest))
  | cons n ns =>
    rw [absolute_cons, splitOn_flatMap _ fun m hm => (hns m hm).2.2.2]
    have hall : Proper (n :: ns ++ rest) := by
      intro m hm
      rcases List.mem_append.mp hm with hfirst | hlast
      · exact hns m hfirst
      · exact hrest m hlast
    exact hroot (harmless_proper plain_nil hall)

theorem harmless_rising {text : Bytes} {rest : List Bytes} (h : Rising text) (hrest : Proper rest)
    (hparent : tree.Plain parent) (hdirectory : tree.kindAt parent = some .directory) :
    Harmless tree (linkStart parent text) (text.splitOn slash ++ rest) := by
  obtain ⟨ns, hns, rfl | ⟨ups, hups⟩⟩ := h
  · have habsolute : isAbsolute (absolute ns) = true := hasRoot_absolute ns
    rw [linkStart, if_pos habsolute]
    exact harmless_absolute hns hrest
  · have hall : Proper (ns ++ rest) := by
      intro m hm
      rcases List.mem_append.mp hm with hfirst | hlast
      · exact hns m hfirst
      · exact hrest m hlast
    rw [hups, List.append_assoc]
    unfold linkStart
    split
    · exact harmless_ups ups hall plain_nil tree.root
    · exact harmless_ups ups hall hparent hdirectory

/-- On a tree whose links rise first, whatever is read is harmless. -/
theorem readsHarmless_of_rising {ns : List Bytes} (hns : Proper ns)
    (hlinks : ∀ parent name text, tree.kindAt (parent ++ [name]) = some (.symlink text) →
      Rising text) : ReadsHarmless host tree rootfs (absolute ns) := by
  constructor
  · have hnone : Proper [] := fun n hn => absurd hn List.not_mem_nil
    have htarget : Harmless tree [] ((absolute ns).splitOn slash ++ []) := harmless_absolute hns hnone
    rw [List.append_nil] at htarget
    exact htarget
  · intro followed path parent name link rest _ hfound
    obtain ⟨hpath, hparent, hlink⟩ := findLink_some plain_nil hfound
    have hdirectory := tree.parents parent name (isSome_of_kindAt hlink)
    have hrest : Proper rest := by
      intro m hm
      apply names_proper path
      rw [← List.nil_append (names path), hpath]
      exact List.mem_append_right _ (List.mem_cons_of_mem _ hm)
    exact harmless_rising (hlinks parent name link hlink) hrest hparent hdirectory

/-! ### Targets that are resolved -/

theorem readPieces_target {path : Bytes} (h : normalizeInnerPath target = some path) :
    readPieces [] (target.splitOn slash) = some (names path) := by
  rw [← normalizeComponents_pieces]
  exact (normalizeInnerPath_form h).2

/-- A target is where the kernel's walk leads if all that is read on the way is harmless. -/
theorem walk_of_harmless (hreads : ReadsHarmless host tree rootfs target)
    (h : resolvePosition host tree rootfs target = .ok position) :
    tree.Walk [] (target.splitOn slash) position := by
  obtain ⟨path, hpath, hrest⟩ := (bind_eq_ok _ _ _).mp h
  rw [okOr_eq_ok] at hpath
  have hwalk := walk_follows 40 (Nat.le_refl 40) hreads (.start hpath) hrest
  exact hreads.1 _ _ (readPieces_target hpath) hwalk

theorem names_target {path : Bytes} (hclean : cleanAbsolute target = true)
    (hpath : normalizeInnerPath target = some path) : names target = names path := by
  have hform := (normalizeInnerPath_form hpath).2
  rw [components_of_cleanAbsolute _ hclean, normalizeComponents, normalizeComponents_normal] at hform
  exact Option.some.inj hform

/-- On a tree where every target that is resolved is where the walk leads, the walk of
every path of the loop leads there. -/
theorem walk_names {followed : ℕ} {path : Bytes}
    (hagree : ∀ target position, cleanAbsolute target = true →
      resolvePosition host tree rootfs target = .ok position →
      tree.Walk [] (target.splitOn slash) position)
    (h : resolvePosition host tree rootfs target = .ok position)
    (hpath : Follows host tree rootfs target followed path) :
    tree.Walk [] (names path) position := by
  obtain ⟨hform, hproper⟩ := follows_logical hpath
  have hresolved := resolvePosition_follows h hpath
  rw [hform] at hresolved
  exact (walk_logical hproper).mp (hagree _ _ (cleanAbsolute_logical hproper) hresolved)

/-- A target that is resolved is where the kernel's walk leads if the text of the target
and of every link that was followed may be read before it is walked. And on a tree all
clean absolute targets that are resolved are where the walk leads exactly if that holds of
each of them and of the first link on its way. -/
theorem resolvePosition_agrees_iff (host : Host) (tree : Tree) (rootfs : Bytes) :
    (∀ target position, ReadsHarmless host tree rootfs target →
      resolvePosition host tree rootfs target = .ok position →
      tree.Walk [] (target.splitOn slash) position) ∧
    ((∀ target position, cleanAbsolute target = true →
        resolvePosition host tree rootfs target = .ok position →
        tree.Walk [] (target.splitOn slash) position) ↔
      ∀ target position, cleanAbsolute target = true →
        resolvePosition host tree rootfs target = .ok position →
        Harmless tree [] (target.splitOn slash) ∧
        ∀ parent name link rest, findLink host tree rootfs [] (names target) =
            .ok (some (parent, name, link, rest)) →
          Harmless tree (linkStart parent link) (link.splitOn slash ++ rest)) := by
  refine ⟨fun target position => walk_of_harmless, fun hagree target position hclean h => ?_,
    fun hlocal target position hclean h => ?_⟩
  · obtain ⟨path, hpath, hrest⟩ := (bind_eq_ok _ _ _).mp h
    rw [okOr_eq_ok] at hpath
    have hstart : Follows host tree rootfs target 0 path := .start hpath
    have hwalk := walk_names hagree h hstart
    constructor
    · intro read there hread hthere
      obtain rfl := Option.some.inj (hread.symm.trans (readPieces_target hpath))
      obtain rfl := hthere.unique hwalk
      exact hagree target _ hclean h
    · intro parent name link rest hfound
      rw [names_target hclean hpath] at hfound
      rw [resolveFrom_eq 40 path (Nat.le_refl 40)] at hrest
      obtain ⟨result, hpass, hlast⟩ := (bind_eq_ok _ _ _).mp hrest
      cases result with
      | inl last =>
        have hnone := (resolvePass_inl hpass).1
        rw [hfound] at hnone
        cases hnone
      | inr next =>
        have hfollows := Follows.next hstart hpass
        obtain ⟨-, parent', name', link', rest', hfound', hnext⟩ := resolvePass_inr hpass
        rw [hfound] at hfound'
        obtain ⟨rfl, rfl, rfl, rfl⟩ : parent = parent' ∧ name = name' ∧ link = link' ∧
            rest = rest' := by simpa using hfound'
        obtain ⟨hread, hsame⟩ := link_pieces hfound hnext
        intro read there hread' hthere
        obtain rfl := Option.some.inj (hread'.symm.trans hread)
        obtain rfl := hthere.unique (walk_names hagree h hfollows)
        exact (hsame _).mp hwalk
  · apply walk_of_harmless _ h
    constructor
    · exact (hlocal target position hclean h).1
    · intro followed path parent name link rest hpath hfound
      obtain ⟨hform, hproper⟩ := follows_logical hpath
      have hclean' : cleanAbsolute path = true := by
        rw [hform]
        exact cleanAbsolute_logical hproper
      exact (hlocal path position hclean' (resolvePosition_follows h hpath)).2 parent name link
        rest hfound

theorem rising_toolImage (parent : Position) (name text : Bytes)
    (h : toolImage.kindAt (parent ++ [name]) = some (.symlink text)) : Rising text := by
  obtain ⟨node, hnode, hkind⟩ := Option.map_eq_some_iff.mp h
  rcases mem_of_lookup_ofEntries hnode with hroot | ⟨entry, hentry, -, rfl⟩
  · simp at hroot
  · simp only [List.mem_cons, List.not_mem_nil, or_false] at hentry
    rcases hentry with rfl | rfl | rfl | rfl | rfl
    · cases hkind
    · cases hkind
    · cases hkind
    · cases hkind
    · obtain rfl := FileKind.symlink.inj hkind
      exact ⟨[lit "opt", lit "bin"], by decide, Or.inr ⟨1, by decide⟩⟩

theorem resolvePosition_agrees_tool :
    toolImage.Walk [] ((lit "/usr/bin/tool").splitOn slash) [lit "opt", lit "bin", lit "tool"] := by
  have hnames : Proper [lit "usr", lit "bin", lit "tool"] := by decide
  exact (resolvePosition_agrees_iff plainHost toolImage (lit "/image")).1 (lit "/usr/bin/tool") _
    (readsHarmless_of_rising hnames rising_toolImage) (by decide +kernel)

/-- `/run` is a link through a link: it leads to `current/../tool`, and `/current` leads to
`/data/v1`. -/
def currentImage : Tree :=
  FileTree.ofEntries ⟨0, 0, 0o755⟩ [imageEntry [] "data" .directory,
    imageEntry [lit "data"] "v1" .directory, imageEntry [lit "data"] "tool" (.regular []),
    imageEntry [] "tool" (.regular []), imageEntry [] "current" (.symlink (lit "/data/v1")),
    imageEntry [] "run" (.symlink (lit "current/../tool"))]

/-- What is resolved is not what the walk reaches. -/
theorem resolvePosition_misread :
    cleanAbsolute (lit "/run") = true ∧
    resolvePosition plainHost currentImage (lit "/image") (lit "/run") = .ok [lit "tool"] ∧
    currentImage.Walk [] ((lit "/run").splitOn slash) [lit "data", lit "tool"] ∧
    ¬currentImage.Walk [] ((lit "/run").splitOn slash) [lit "tool"] := by
  have hwalk : currentImage.Walk [] ((lit "/run").splitOn slash) [lit "data", lit "tool"] := by
    have hrun : (lit "/run").splitOn slash = [[], lit "run"] := by decide
    have hcurrent : (lit "current/../tool").splitOn slash ++ [] =
        [lit "current", dotDot, lit "tool"] := by decide
    have hdata : (lit "/data/v1").splitOn slash ++ [dotDot, lit "tool"] =
        [[], lit "data", lit "v1", dotDot, lit "tool"] := by decide
    have hentry : currentImage.kindAt ([] ++ [lit "run"]) = some (.symlink (lit "current/../tool")) ∧
        currentImage.kindAt ([] ++ [lit "current"]) = some (.symlink (lit "/data/v1")) ∧
        currentImage.kindAt ([] ++ [lit "data"]) = some .directory ∧
        currentImage.kindAt ([lit "data"] ++ [lit "v1"]) = some .directory ∧
        currentImage.kindAt ([lit "data"] ++ [lit "tool"]) = some (.regular []) := by
      decide +kernel
    obtain ⟨hrunLink, hcurrentLink, hdataEntry, hversion, htool⟩ := hentry
    have hback : currentImage.Walk [lit "data", lit "v1"] [dotDot, lit "tool"]
        [lit "data", lit "tool"] := .up hversion (.enter htool nofun (.done _))
    have hdown : currentImage.Walk [] [[], lit "data", lit "v1", dotDot, lit "tool"]
        [lit "data", lit "tool"] :=
      .stay (Or.inl rfl) currentImage.root (.enter hdataEntry nofun (.enter hversion nofun hback))
    rw [← hdata] at hdown
    have hthrough := Walk.follow hcurrentLink hdown
    rw [← hcurrent] at hthrough
    rw [hrun]
    exact .stay (Or.inl rfl) currentImage.root (.follow hrunLink hthrough)
  refine ⟨by decide, by decide +kernel, hwalk, fun h => ?_⟩
  have hsame := hwalk.unique h
  exact absurd hsame (by decide)

end Sandcamp.Sandrun
