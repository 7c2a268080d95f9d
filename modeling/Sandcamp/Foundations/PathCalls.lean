import Sandcamp.Foundations.Checks
import Sandcamp.Foundations.PathWalk

/-!
# System calls by path

A call is given a path as text, and the kernel walks it piece by piece from the root of
the whole tree, through at most `maxLinks` links. Nothing keeps such a walk below a
directory that the text begins with: a link on the way leads wherever its text says. What
can be said is where a path leads that goes on, behind a directory it has reached, with a
name that is no link (`reach_push`).
-/

namespace Foundations.FileTree
open UnixPath

variable {α : Type}

inductive Errno where
  | noEntry
  | notDirectory
  | tooManyLinks
  | alreadyExists
  | invalid
  deriving DecidableEq, Repr

/-- What one piece of a path does. -/
inductive Move where
  | place (position : List Bytes)
  | link (text : Bytes)

def move (tree : FileTree α) (here : List Bytes) (piece : Bytes) : Except Errno Move :=
  if tree.kindAt here ≠ some .directory then .error .notDirectory
  else if piece = [] ∨ piece = dot then .ok (.place here)
  else if piece = dotDot then .ok (.place here.dropLast)
  else match tree.kindAt (here ++ [piece]) with
    | none => .error .noEntry
    | some (.symlink text) => .ok (.link text)
    | some _ => .ok (.place (here ++ [piece]))

/-- The pieces from here on. `follow` goes on at a link; at the end of the path a link is
followed only if `last` says so. -/
def walkWith (tree : FileTree α) (last : Bool)
    (follow : List Bytes → List Bytes → Except Errno (List Bytes)) (here : List Bytes) :
    List Bytes → Except Errno (List Bytes)
  | [] => .ok here
  | piece :: rest => do
    match ← tree.move here piece with
    | .place next => walkWith tree last follow next rest
    | .link text =>
      if rest = [] ∧ last = false then .ok (here ++ [piece])
      else follow (linkStart here text) (text.splitOn slash ++ rest)

/-- The walk through that many links. -/
def reach (tree : FileTree α) (last : Bool) :
    ℕ → List Bytes → List Bytes → Except Errno (List Bytes)
  | 0 => tree.walkWith last fun _ _ => .error .tooManyLinks
  | links + 1 => tree.walkWith last (reach tree last links)

def maxLinks : ℕ := 40

/-- Where an absolute path leads. -/
def find (tree : FileTree α) (last : Bool) (path : Bytes) : Except Errno (List Bytes) :=
  tree.reach last maxLinks [] (path.splitOn slash)

/-- `stat`, which follows the last link, and `lstat`, which does not. -/
def status (tree : FileTree α) (last : Bool) (path : Bytes) : Except Errno FileKind := do
  let there ← tree.find last path
  okOr (tree.kindAt there) .noEntry

def readLink (tree : FileTree α) (path : Bytes) : Except Errno Bytes := do
  match ← tree.status false path with
  | .symlink text => .ok text
  | _ => .error .invalid

/-- `mkdir`, and `open` with `O_CREAT` and `O_EXCL`. -/
def makeAt (tree : FileTree α) (path : Bytes) (node : Node α) : Except Errno (FileTree α) := do
  let pieces := path.splitOn slash
  let here ← tree.reach true maxLinks [] pieces.dropLast
  let name ← okOr pieces.getLast? .invalid
  rejectIf (tree.kindAt here ≠ some .directory) .notDirectory
  rejectIf ((tree.lookup (here ++ [name])).isSome = true) .alreadyExists
  okOr (tree.create here name node) .invalid

/-- `chmod`, and what else is changed through the path. -/
def changeAt (tree : FileTree α) (path : Bytes) (f : α → α) : Except Errno (FileTree α) := do
  let there ← tree.find true path
  .ok (tree.setAttributes there f)

/-! ### Walks that go on -/

section Walks

variable {tree : FileTree α} {last : Bool} {here there middle : List Bytes}
  {follow follow' : List Bytes → List Bytes → Except Errno (List Bytes)}

theorem walkWith_append {ys : List Bytes} {r : Except Errno (List Bytes)} (hys : ys ≠ [])
    (hfollow : ∀ start xs, follow start xs = .ok middle → follow' start (xs ++ ys) = r)
    (hrest : tree.walkWith last follow' middle ys = r) (xs : List Bytes)
    (h : tree.walkWith true follow here xs = .ok middle) :
    tree.walkWith last follow' here (xs ++ ys) = r := by
  induction xs generalizing here with
  | nil =>
    obtain rfl := Except.ok.inj h
    exact hrest
  | cons piece rest ih =>
    obtain ⟨moved, hmove, hgo⟩ := (bind_eq_ok _ _ _).mp h
    rw [List.cons_append, walkWith, bind_of_ok hmove]
    cases moved with
    | place next => exact ih hgo
    | link text =>
      have hmore : ¬(rest ++ ys = [] ∧ last = false) := fun hend =>
        hys (List.append_eq_nil_iff.mp hend.1).2
      have hfound : follow (linkStart here text) (text.splitOn slash ++ rest) = .ok middle := by
        simpa using hgo
      show (if rest ++ ys = [] ∧ last = false then _ else _) = r
      rw [if_neg hmore, ← List.append_assoc]
      exact hfollow _ _ hfound

/-- A walk goes on behind the place it has reached. -/
theorem reach_append {ys : List Bytes} {r : Except Errno (List Bytes)} (hys : ys ≠ [])
    (hrest : ∀ links, tree.reach last links middle ys = r) (links : ℕ) (xs : List Bytes)
    (h : tree.reach true links here xs = .ok middle) :
    tree.reach last links here (xs ++ ys) = r := by
  induction links generalizing here xs with
  | zero => exact walkWith_append hys (fun _ _ hnone => by cases hnone) (hrest 0) xs h
  | succ links ih =>
    exact walkWith_append hys (fun start xs hfound => ih xs hfound) (hrest (links + 1)) xs h

theorem walkWith_trailing
    (hfollow : ∀ start xs, follow start (xs ++ [[]]) = .ok there → follow' start xs = .ok there)
    (xs : List Bytes) (h : tree.walkWith true follow here (xs ++ [[]]) = .ok there) :
    tree.walkWith true follow' here xs = .ok there := by
  induction xs generalizing here with
  | nil =>
    obtain ⟨moved, hmove, hgo⟩ := (bind_eq_ok _ _ _).mp h
    unfold move at hmove
    split at hmove
    · cases hmove
    · obtain rfl := Except.ok.inj hmove
      exact hgo
  | cons piece rest ih =>
    rw [List.cons_append] at h
    obtain ⟨moved, hmove, hgo⟩ := (bind_eq_ok _ _ _).mp h
    rw [walkWith, bind_of_ok hmove]
    cases moved with
    | place next => exact ih hgo
    | link text =>
      have hfound : follow (linkStart here text) (text.splitOn slash ++ (rest ++ [[]])) =
          .ok there := by simpa using hgo
      rw [← List.append_assoc] at hfound
      simpa using hfollow _ _ hfound

theorem reach_trailing (links : ℕ) (xs : List Bytes)
    (h : tree.reach true links here (xs ++ [[]]) = .ok there) :
    tree.reach true links here xs = .ok there := by
  induction links generalizing here xs with
  | zero => exact walkWith_trailing (fun _ _ hnone => by cases hnone) xs h
  | succ links ih =>
    have hfollow : ∀ start xs, tree.reach true links start (xs ++ [[]]) = .ok there →
        tree.reach true links start xs = .ok there := fun start xs hfound => ih xs hfound
    exact walkWith_trailing hfollow xs h

theorem move_extends {tree' : FileTree α} (hextends : tree.Extends tree') {piece : Bytes}
    {moved : Move} (h : tree.move here piece = .ok moved) : tree'.move here piece = .ok moved := by
  unfold move at h ⊢
  by_cases hdirectory : tree.kindAt here = some .directory
  · rw [if_neg (not_not.mpr hdirectory)] at h
    rw [if_neg (not_not.mpr (hextends.kindAt hdirectory))]
    by_cases hstay : piece = [] ∨ piece = dot
    · rw [if_pos hstay] at h ⊢
      exact h
    · rw [if_neg hstay] at h ⊢
      by_cases hup : piece = dotDot
      · rw [if_pos hup] at h ⊢
        exact h
      · rw [if_neg hup] at h ⊢
        cases hkind : tree.kindAt (here ++ [piece]) with
        | none =>
          rw [hkind] at h
          cases h
        | some kind =>
          rw [hkind] at h
          rw [hextends.kindAt hkind]
          exact h
  · rw [if_pos hdirectory] at h
    cases h

theorem walkWith_extends {tree' : FileTree α} (hextends : tree.Extends tree')
    (hfollow : ∀ start xs, follow start xs = .ok there → follow' start xs = .ok there)
    (xs : List Bytes) (h : tree.walkWith last follow here xs = .ok there) :
    tree'.walkWith last follow' here xs = .ok there := by
  induction xs generalizing here with
  | nil => exact h
  | cons piece rest ih =>
    obtain ⟨moved, hmove, hgo⟩ := (bind_eq_ok _ _ _).mp h
    rw [walkWith, bind_of_ok (move_extends hextends hmove)]
    cases moved with
    | place next => exact ih hgo
    | link text =>
      have hcases : (if rest = [] ∧ last = false then .ok (here ++ [piece])
          else follow (linkStart here text) (text.splitOn slash ++ rest)) = Except.ok there := hgo
      show (if rest = [] ∧ last = false then _ else _) = _
      by_cases hend : rest = [] ∧ last = false
      · rw [if_pos hend] at hcases ⊢
        exact hcases
      · rw [if_neg hend] at hcases ⊢
        exact hfollow _ _ hcases

/-- New entries change no path that leads somewhere. -/
theorem reach_extends {tree' : FileTree α} (hextends : tree.Extends tree') (links : ℕ)
    (xs : List Bytes) (h : tree.reach last links here xs = .ok there) :
    tree'.reach last links here xs = .ok there := by
  induction links generalizing here xs with
  | zero => exact walkWith_extends hextends (fun _ _ hnone => by cases hnone) xs h
  | succ links ih => exact walkWith_extends hextends (fun start xs hfound => ih xs hfound) xs h

/-! ### A name behind a directory -/

theorem pieces_push (p : Bytes) {name : Bytes} (hp : p ≠ []) (hname : ProperName name) :
    ∃ xs, (push p name).splitOn slash = xs ++ [name] ∧
      (p.splitOn slash = xs ∨ p.splitOn slash = xs ++ [[]]) := by
  unfold push
  rw [if_neg (by rw [not_absolute_of_proper name hname]; decide)]
  by_cases hend : p = [] ∨ p.getLast? = some slash
  · rw [if_pos hend]
    obtain ⟨q, rfl⟩ := List.getLast?_eq_some_iff.mp (hend.resolve_left hp)
    have hshape : q ++ [slash] ++ name = q ++ slash :: name := by simp
    rw [hshape]
    exact ⟨q.splitOn slash, splitOn_snoc q name hname.2.2.2, Or.inr (splitOn_snoc q [] (by simp))⟩
  · rw [if_neg hend]
    exact ⟨p.splitOn slash, splitOn_snoc p name hname.2.2.2, Or.inl rfl⟩

theorem move_name {name : Bytes} (hdirectory : tree.kindAt here = some .directory)
    (hname : ProperName name) :
    tree.move here name = match tree.kindAt (here ++ [name]) with
      | none => .error .noEntry
      | some (.symlink text) => .ok (.link text)
      | some _ => .ok (.place (here ++ [name])) := by
  unfold move
  rw [if_neg (not_not.mpr hdirectory), if_neg (not_or.mpr ⟨hname.1, hname.2.1⟩),
    if_neg hname.2.2.1]

theorem reach_one (tree : FileTree α) (last : Bool) (here : List Bytes) (links : ℕ)
    (piece : Bytes) : ∃ follow,
      tree.reach last links here [piece] = tree.walkWith last follow here [piece] := by
  cases links with
  | zero => exact ⟨_, rfl⟩
  | succ links => exact ⟨_, rfl⟩

/-- The error for a name that is not there. -/
def missing (tree : FileTree α) (here : List Bytes) : Errno :=
  if tree.kindAt here = some .directory then .noEntry else .notDirectory

theorem reach_name {name : Bytes} (hname : ProperName name) (links : ℕ) :
    tree.reach false links here [name] =
      (okOr (tree.kindAt (here ++ [name])) (tree.missing here)).map fun _ => here ++ [name] := by
  obtain ⟨follow, hone⟩ := reach_one tree false here links name
  rw [hone, walkWith]
  by_cases hdirectory : tree.kindAt here = some .directory
  · rw [move_name hdirectory hname, missing, if_pos hdirectory]
    cases tree.kindAt (here ++ [name]) with
    | none => rfl
    | some kind => cases kind <;> rfl
  · have hmove : tree.move here name = .error .notDirectory := if_pos hdirectory
    have hnone : tree.kindAt (here ++ [name]) = none := by
      by_contra hsome
      obtain ⟨kind, hkind⟩ := Option.ne_none_iff_exists'.mp hsome
      exact hdirectory (tree.parents here name (isSome_of_kindAt hkind))
    rw [hmove, hnone, missing, if_neg hdirectory]
    rfl

theorem reach_plain_name {name : Bytes} {kind : FileKind}
    (hdirectory : tree.kindAt here = some .directory) (hname : ProperName name)
    (hkind : tree.kindAt (here ++ [name]) = some kind) (hlink : ∀ text, kind ≠ .symlink text)
    (links : ℕ) : tree.reach last links here [name] = .ok (here ++ [name]) := by
  obtain ⟨follow, hone⟩ := reach_one tree last here links name
  rw [hone, walkWith, move_name hdirectory hname, hkind]
  cases kind with
  | symlink text => exact absurd rfl (hlink text)
  | directory => rfl
  | regular contents => rfl
  | other => rfl

theorem reach_pieces_push {p name : Bytes} (hp : p ≠ []) (hname : ProperName name)
    (hfind : tree.find true p = .ok here) :
    ∃ xs, (push p name).splitOn slash = xs ++ [name] ∧
      tree.reach true maxLinks [] xs = .ok here := by
  obtain ⟨xs, hpieces, hbefore⟩ := pieces_push p hp hname
  unfold find at hfind
  rcases hbefore with hsame | htrailing
  · rw [hsame] at hfind
    exact ⟨xs, hpieces, hfind⟩
  · rw [htrailing] at hfind
    exact ⟨xs, hpieces, reach_trailing maxLinks xs hfind⟩

/-- Behind a directory it leads to, a path and one more name lead where the name does. -/
theorem find_push {p name : Bytes} {r : Except Errno (List Bytes)} (hp : p ≠ [])
    (hname : ProperName name) (hfind : tree.find true p = .ok here)
    (h : ∀ links, tree.reach last links here [name] = r) : tree.find last (push p name) = r := by
  obtain ⟨xs, hpieces, hreach⟩ := reach_pieces_push hp hname hfind
  unfold find
  rw [hpieces]
  exact reach_append (by simp) h maxLinks xs hreach

theorem makeAt_push {p name : Bytes} (hp : p ≠ []) (hname : ProperName name)
    (hfind : tree.find true p = .ok here) (hdirectory : tree.kindAt here = some .directory)
    (node : Node α) :
    tree.makeAt (push p name) node =
      if (tree.lookup (here ++ [name])).isSome then .error .alreadyExists
      else okOr (tree.create here name node) .invalid := by
  obtain ⟨xs, hpieces, hreach⟩ := reach_pieces_push hp hname hfind
  have hparent : tree.reach true maxLinks [] ((push p name).splitOn slash).dropLast = .ok here := by
    rw [hpieces, List.dropLast_concat]
    exact hreach
  have hlast : okOr ((push p name).splitOn slash).getLast? Errno.invalid = .ok name := by
    rw [hpieces, List.getLast?_concat]
    rfl
  have hkind : rejectIf (tree.kindAt here ≠ some .directory) Errno.notDirectory = .ok () :=
    (rejectIf_eq_ok _ _ _).mpr (not_not.mpr hdirectory)
  unfold makeAt
  rw [bind_of_ok hparent, bind_of_ok hlast, bind_of_ok hkind]
  unfold rejectIf
  by_cases hexists : (tree.lookup (here ++ [name])).isSome = true
  · rw [if_pos hexists, if_pos hexists]
    rfl
  · rw [if_neg hexists, if_neg hexists]
    rfl

end Walks

end Foundations.FileTree
