import Sandcamp.Foundations.Subtree
import Sandcamp.Sandrun.BindTargets

/-!
# Missing bind targets, by path (linux.rs:876-1038, 1101-1156)

The functions as they are written: every call is given a path under the rootfs, which the
kernel walks in the tree of the whole host, and which a link on the way would lead out of
the rootfs. None does: the directories above every name a call is given are plain, so the
calls do what they do in the tree of the rootfs by itself.
-/

namespace Sandcamp.Sandrun.ByPath
open Foundations Foundations.UnixPath Foundations.FileTree

/-! ### The functions -/

/-- `fs::metadata`, or `fs::symlink_metadata` if the last link is not followed. -/
def stat (host : Host) (world : Tree) (last : Bool) (path : Bytes) (operation : String) :
    Except RuntimeError FileKind := do
  attempt host operation path
  (world.status last path).mapError fun _ => .operation (lit operation) (some path)

/-- The inner loop of `resolve_target`: the first link, the path it stands in, and the names
behind it. -/
def findLink (host : Host) (world : Tree) (physical innerParent : Bytes) :
    List Bytes → Except RuntimeError (Option (Bytes × Bytes × List Bytes))
  | [] => .ok none
  | component :: rest => do
    let physical := push physical component
    match ← stat host world false physical "mount_target_resolve_failed" with
    | .symlink _ => .ok (some (physical, innerParent, rest))
    | _ => findLink host world physical (push innerParent component) rest

def resolveFrom (host : Host) (world : Tree) (rootfs target : Bytes) (left : ℕ) (path : Bytes) :
    Except RuntimeError Bytes := do
  match ← findLink host world rootfs (lit "/") (names path) with
  | none => .ok ((names path).foldl push rootfs)
  | some (physical, innerParent, rest) =>
    match left with
    | 0 => .error (invalidTarget target "target contains too many symlinks")
    | left + 1 => do
      attempt host "mount_target_readlink_failed" physical
      let link ← (world.readLink physical).mapError fun _ =>
        .operation (lit "mount_target_readlink_failed") (some physical)
      let next := if isAbsolute link then link else push innerParent link
      let next ← okOr (normalizeInnerPath (rest.foldl push next))
        (invalidTarget target "target escapes rootfs through a symlink")
      resolveFrom host world rootfs target left next

/-- `resolve_target` (`linux.rs:1101-1156`). -/
def resolveTarget (host : Host) (world : Tree) (rootfs target : Bytes) :
    Except RuntimeError Bytes := do
  let path ← okOr (normalizeInnerPath target) (invalidTarget target "target escapes rootfs")
  resolveFrom host world rootfs target 40 path

/-- `fs::symlink_metadata`, where `NotFound` is no error. -/
def lookUp (host : Host) (path : Bytes) (operation : String) :
    Preparation (Option FileKind) := do
  reading fun _ => attempt host operation path
  reading fun world => match world.status false path with
    | .ok kind => .ok (some kind)
    | .error .noEntry => .ok none
    | .error _ => .error (.operation (lit operation) (some path))

/-- `DirBuilder::create`, and `OpenOptions` with `create_new(true)`. -/
def makeEntry (host : Host) (path : Bytes) (kind : FileKind) (mode : ℕ) (operation : String) :
    Preparation Creation := fun world =>
  if host.fault (lit operation) path then .ok .failed world
  else match world.makeAt path ⟨kind, ⟨0, 0, host.masked mode⟩⟩ with
    | .ok world' => .ok .created world'
    | .error .alreadyExists => .ok .alreadyExists world
    | .error _ => .ok .failed world

/-- `fs::set_permissions`. -/
def changeMode (host : Host) (path : Bytes) (mode : ℕ) (operation : String) :
    Preparation Unit := do
  reading fun _ => attempt host operation path
  fun world => match world.changeAt path fun attributes => { attributes with mode := mode } with
    | .ok world' => .ok () world'
    | .error _ => .error (.operation (lit operation) (some path)) world

def createEntry (host : Host) (path : Bytes) (kind : FileKind) (mode : ℕ)
    (createOperation chmodOperation : String) : Preparation Unit := do
  match ← makeEntry host path kind mode createOperation with
  | .created => changeMode host path mode chmodOperation
  | .alreadyExists => pure ()
  | .failed => throw (.operation (lit createOperation) (some path))

/-- `create_directory` (`linux.rs:1021-1038`). -/
def createDirectory (host : Host) (path : Bytes) (createOperation chmodOperation : String) :
    Preparation Unit :=
  createEntry host path .directory createdDirectoryMode createOperation chmodOperation

/-- One name of `ensure_bind_target_directory`. -/
def enterDirectory (host : Host) (rootfs logical resolved name : Bytes) : Preparation Bytes := do
  let candidate := push resolved name
  match ← lookUp host candidate "bind_target_parent_stat_failed" with
  | some (.symlink _) => do
    let resolved ← reading fun world => resolveTarget host world rootfs logical
    let kind ← reading fun world =>
      stat host world true resolved "bind_target_parent_stat_failed"
    reading fun _ => rejectIf (kind ≠ .directory)
      (invalidTarget logical "bind target parent is not a directory")
    pure resolved
  | some .directory => pure candidate
  | some _ => throw (invalidTarget logical "bind target parent is not a directory")
  | none => do
    createDirectory host candidate "bind_target_parent_create_failed"
      "bind_target_parent_chmod_failed"
    let kind ← reading fun world =>
      stat host world false candidate "bind_target_parent_stat_failed"
    reading fun _ => rejectIf (kind ≠ .directory)
      (invalidTarget logical "bind target parent is not a real directory")
    pure candidate

/-- The loop of `ensure_bind_target_directory` (`linux.rs:947-1019`). -/
def ensureBindTargetDirectory (host : Host) (rootfs target logical resolved : Bytes) :
    List Component → Preparation Bytes
  | [] => pure resolved
  | .rootDir :: rest => ensureBindTargetDirectory host rootfs target logical resolved rest
  | .normal name :: rest => do
    let logical := push logical name
    let resolved ← enterDirectory host rootfs logical resolved name
    ensureBindTargetDirectory host rootfs target logical resolved rest
  | _ => throw (invalidTarget target "bind target parent escapes rootfs")

/-- The missing entry that `ensure_bind_target` makes for a source of this kind. -/
def createBindTarget (host : Host) (target path : Bytes) (source : FileKind) :
    Preparation Unit :=
  match source with
  | .directory => createEntry host path .directory createdDirectoryMode
      "bind_target_create_failed" "bind_target_chmod_failed"
  | .regular _ => createEntry host path (.regular []) createdFileMode
      "bind_target_create_failed" "bind_target_chmod_failed"
  | _ => throw (invalidTarget target
      "missing bind target cannot be created for this source type")

/-- `ensure_bind_target` (`linux.rs:876-945`). -/
def ensureBindTarget (host : Host) (rootfs : Bytes) (bind : Bind) : Preparation Unit := do
  let (_, source) ← reading fun world => bindSource host world bind.source
  let above ← reading fun _ =>
    okOr (parent bind.target) (invalidTarget bind.target "bind target has no parent")
  let directory ←
    ensureBindTargetDirectory host rootfs (fromComponents above) (lit "/") rootfs above
  let name ← reading fun _ =>
    okOr (fileName bind.target) (invalidTarget bind.target "bind target has no file name")
  let path := push directory name
  match ← lookUp host path "bind_target_stat_failed" with
  | some _ => pure ()
  | none => createBindTarget host bind.target path source

/-! ### In the rootfs by itself -/

/-- What the functions see of the host around the tree of the rootfs. -/
def inside (host : Host) (world : Tree) (base : Position)
    (hbase : world.kindAt base = some .directory) : Host :=
  { host with
    canonicalize := fun tree => host.canonicalize (world.graft base hbase tree)
    metadata := fun tree => host.metadata (world.graft base hbase tree) }

section Inside

variable {host : Host} {world tree tree' : Tree} {base : Position}
  {hbase : world.kindAt base = some .directory} {rootfs target logicalPath : Bytes}
  {parent resolved next : Position} {name : Bytes}

@[simp] theorem inside_fault : (inside host world base hbase).fault = host.fault := rfl

@[simp] theorem inside_masked (mode : ℕ) :
    (inside host world base hbase).masked mode = host.masked mode := rfl

/-- The end of an action in the tree of the rootfs, as an end in the tree of the host. -/
def grafted {ε α β : Type} (hbase : world.kindAt base = some .directory) (f : β → α) :
    EStateM.Result ε Tree β → EStateM.Result ε Tree α
  | .ok b tree => .ok (f b) (world.graft base hbase tree)
  | .error e tree => .error e (world.graft base hbase tree)

theorem grafted_bind {ε α α' β β' : Type} {f : β → α} {g : β' → α'} {x : EStateM ε Tree α}
    {y : EStateM ε Tree β} {k : α → EStateM ε Tree α'} {l : β → EStateM ε Tree β'}
    (h : x (world.graft base hbase tree) = grafted hbase f (y tree))
    (hrest : ∀ b tree', y tree = .ok b tree' →
      k (f b) (world.graft base hbase tree') = grafted hbase g (l b tree')) :
    (x >>= k) (world.graft base hbase tree) = grafted hbase g ((y >>= l) tree) := by
  show EStateM.bind x k _ = grafted hbase g (EStateM.bind y l tree)
  unfold EStateM.bind
  rw [h]
  cases hrun : y tree with
  | ok b tree' => exact hrest b tree' hrun
  | error e tree' => rfl

theorem grafted_reading {ε α β : Type} {f : β → α} {check : Tree → Except ε α}
    {check' : Tree → Except ε β}
    (h : check (world.graft base hbase tree) = (check' tree).map f) :
    reading check (world.graft base hbase tree) = grafted hbase f (reading check' tree) := by
  unfold reading
  rw [h]
  cases check' tree with
  | ok b => rfl
  | error e => rfl

theorem grafted_check {ε α : Type} (check : Except ε α) :
    reading (fun _ => check) (world.graft base hbase tree) =
      grafted hbase id (reading (fun _ => check) tree) := by
  apply grafted_reading
  cases check with
  | ok a => rfl
  | error e => rfl

/-! ### The calls -/

theorem stat_entry (h : (world.graft base hbase tree).Rooted rootfs base)
    (hplain : tree.Plain parent) (hname : ProperName name) (operation : String) :
    stat host (world.graft base hbase tree) false (physical rootfs (parent ++ [name])) operation =
      Sandrun.stat (inside host world base hbase) tree rootfs (parent ++ [name]) operation := by
  have hstatus := status_graft h hplain hname
  unfold stat Sandrun.stat
  rw [show (world.graft base hbase tree).status false (physical rootfs (parent ++ [name])) = _
    from hstatus]
  apply congrArg
  funext _
  cases tree.kindAt (parent ++ [name]) with
  | none => rfl
  | some kind => rfl

theorem stat_plain (h : (world.graft base hbase tree).Rooted rootfs base)
    (hplain : tree.Plain resolved) (operation : String) :
    stat host (world.graft base hbase tree) true (physical rootfs resolved) operation =
      Sandrun.stat (inside host world base hbase) tree rootfs resolved operation := by
  have hstatus := status_plain h hplain
  unfold stat Sandrun.stat
  rw [show (world.graft base hbase tree).status true (physical rootfs resolved) = _ from hstatus]
  apply congrArg
  funext _
  cases tree.kindAt resolved with
  | none => rfl
  | some kind => rfl

theorem lookUp_inside (h : (world.graft base hbase tree).Rooted rootfs base)
    (hplain : tree.Plain parent) (hdirectory : tree.kindAt parent = some .directory)
    (hname : ProperName name) (operation : String) :
    lookUp host (physical rootfs (parent ++ [name])) operation (world.graft base hbase tree) =
      grafted hbase id (Sandrun.lookUp (inside host world base hbase) rootfs (parent ++ [name])
        operation tree) := by
  have hstatus : (world.graft base hbase tree).status false (physical rootfs (parent ++ [name])) =
      okOr (tree.kindAt (parent ++ [name])) (tree.missing parent) := status_graft h hplain hname
  have hmissing : tree.missing parent = .noEntry := if_pos hdirectory
  unfold lookUp Sandrun.lookUp
  apply grafted_bind (grafted_check _)
  intro _ tree' hattempt
  obtain ⟨-, rfl⟩ := (reading_eq_ok _ _ _ _).mp hattempt
  apply grafted_reading
  simp only [hstatus, hmissing]
  cases tree'.kindAt (parent ++ [name]) with
  | none => rfl
  | some kind => rfl

theorem makeEntry_inside (h : (world.graft base hbase tree).Rooted rootfs base)
    (hplain : tree.Plain parent) (hdirectory : tree.kindAt parent = some .directory)
    (hname : ProperName name) (kind : FileKind) (mode : ℕ) (operation : String) :
    makeEntry host (physical rootfs (parent ++ [name])) kind mode operation
        (world.graft base hbase tree) =
      grafted hbase id (Sandrun.makeEntry (inside host world base hbase) rootfs parent name kind
        mode operation tree) := by
  have hmake : ∀ node, (world.graft base hbase tree).makeAt (physical rootfs (parent ++ [name])) node =
      if (tree.lookup (parent ++ [name])).isSome then .error .alreadyExists
      else okOr ((tree.create parent name node).map (world.graft base hbase)) .invalid :=
    fun node => makeAt_graft h hplain hdirectory hname node
  unfold makeEntry Sandrun.makeEntry
  rw [hmake, inside_fault, inside_masked]
  by_cases hfault : host.fault (lit operation) (physical rootfs (parent ++ [name])) = true
  · rw [if_pos hfault, if_pos hfault]
    rfl
  · rw [if_neg hfault, if_neg hfault]
    cases hexists : (tree.lookup (parent ++ [name])).isSome with
    | true =>
      have hcreate : ∀ node, tree.create parent name node = none := by
        intro node
        apply dif_neg
        intro hvacant
        have hnone := Option.isNone_iff_eq_none.mp hvacant.2.1
        rw [hnone] at hexists
        cases hexists
      rw [hcreate]
      rfl
    | false =>
      cases tree.create parent name ⟨kind, ⟨0, 0, host.masked mode⟩⟩ with
      | none => rfl
      | some tree' => rfl

theorem changeMode_inside (h : (world.graft base hbase tree).Rooted rootfs base)
    (hplain : tree.Plain resolved) (mode : ℕ) (operation : String) :
    changeMode host (physical rootfs resolved) mode operation (world.graft base hbase tree) =
      grafted hbase id (Sandrun.changeMode (inside host world base hbase) rootfs resolved mode
        operation tree) := by
  have hchange : ∀ f, (world.graft base hbase tree).changeAt (physical rootfs resolved) f =
      .ok (world.graft base hbase (tree.setAttributes resolved f)) :=
    fun f => changeAt_graft h hplain f
  unfold changeMode Sandrun.changeMode
  apply grafted_bind (grafted_check _)
  intro _ tree' hattempt
  obtain ⟨-, rfl⟩ := (reading_eq_ok _ _ _ _).mp hattempt
  simp only [hchange]
  rfl

/-- What `makeEntry` leaves when it has made the entry. -/
theorem created_of_makeEntry {kind : FileKind} {mode : ℕ} {operation : String}
    (h : Sandrun.makeEntry host rootfs parent name kind mode operation tree = .ok .created tree') :
    tree.Extends tree' ∧ tree'.kindAt (parent ++ [name]) = some kind := by
  unfold Sandrun.makeEntry at h
  by_cases hfault : host.fault (lit operation) (physical rootfs (parent ++ [name])) = true
  · rw [if_pos hfault] at h
    cases h
  · rw [if_neg hfault] at h
    by_cases hvacant : tree.Vacant parent name
    · rw [FileTree.create, dif_pos hvacant] at h
      cases h
      refine ⟨extends_add tree parent name _ hvacant, ?_⟩
      show Option.map _ (if parent ++ [name] = parent ++ [name] then _ else _) = _
      rw [if_pos rfl]
      rfl
    · rw [FileTree.create, dif_neg hvacant] at h
      cases hsome : (tree.lookup (parent ++ [name])).isSome with
      | true =>
        rw [hsome] at h
        cases h
      | false =>
        rw [hsome] at h
        cases h

theorem createEntry_inside (h : (world.graft base hbase tree).Rooted rootfs base)
    (hplain : tree.Plain parent) (hdirectory : tree.kindAt parent = some .directory)
    (hname : ProperName name) {kind : FileKind} (hlink : ∀ text, kind ≠ .symlink text)
    (mode : ℕ) (createOperation chmodOperation : String) :
    createEntry host (physical rootfs (parent ++ [name])) kind mode createOperation chmodOperation
        (world.graft base hbase tree) =
      grafted hbase id (Sandrun.createEntry (inside host world base hbase) rootfs parent name kind
        mode createOperation chmodOperation tree) := by
  unfold createEntry Sandrun.createEntry
  apply grafted_bind (makeEntry_inside h hplain hdirectory hname kind mode createOperation)
  intro creation tree' hmade
  cases creation with
  | created =>
    obtain ⟨hextends, hentry⟩ := created_of_makeEntry hmade
    apply changeMode_inside (h.extends (graft_extends hbase hextends))
    exact plain_snoc (plain_extends hextends hplain) hentry hlink
  | alreadyExists => rfl
  | failed => rfl

/-! ### `resolve_target` -/

theorem findLink_inside (h : (world.graft base hbase tree).Rooted rootfs base)
    (hplain : tree.Plain parent) (ns : List Bytes) (hns : Proper ns) :
    findLink host (world.graft base hbase tree) (physical rootfs parent) (logical parent) ns =
      (Sandrun.findLink (inside host world base hbase) tree rootfs parent ns).map
        (Option.map fun found =>
          (physical rootfs (found.1 ++ [found.2.1]), logical found.1, found.2.2.2)) := by
  induction ns generalizing parent with
  | nil => rfl
  | cons n ns ih =>
    have hn : ProperName n := hns n List.mem_cons_self
    have hrest : Proper ns := fun m hm => hns m (List.mem_cons_of_mem _ hm)
    have hinner : push (logical parent) n = logical (parent ++ [n]) := physical_snoc parent n
    unfold findLink Sandrun.findLink
    simp only [physical_snoc parent n]
    rw [stat_entry h hplain hn]
    cases hstat : Sandrun.stat (inside host world base hbase) tree rootfs (parent ++ [n])
        "mount_target_resolve_failed" with
    | error e => rfl
    | ok kind =>
      have hentry := stat_eq_ok hstat
      cases kind with
      | symlink text => rfl
      | directory =>
        show findLink host _ _ (push (logical parent) n) ns = _
        rw [hinner]
        exact ih (plain_snoc hplain hentry (by simp)) hrest
      | regular contents =>
        show findLink host _ _ (push (logical parent) n) ns = _
        rw [hinner]
        exact ih (plain_snoc hplain hentry (by simp)) hrest
      | other =>
        show findLink host _ _ (push (logical parent) n) ns = _
        rw [hinner]
        exact ih (plain_snoc hplain hentry (by simp)) hrest

theorem readLink_inside (h : (world.graft base hbase tree).Rooted rootfs base)
    (hplain : tree.Plain parent) (hname : ProperName name) {text : Bytes}
    (hkind : tree.kindAt (parent ++ [name]) = some (.symlink text)) :
    (world.graft base hbase tree).readLink (physical rootfs (parent ++ [name])) = .ok text := by
  have hstatus : (world.graft base hbase tree).status false (physical rootfs (parent ++ [name])) =
      okOr (tree.kindAt (parent ++ [name])) (tree.missing parent) := status_graft h hplain hname
  unfold readLink
  rw [hstatus, hkind]
  rfl

theorem resolveFrom_inside (h : (world.graft base hbase tree).Rooted rootfs base) (left : ℕ)
    {path : Bytes} :
    resolveFrom host (world.graft base hbase tree) rootfs target left path =
      (Sandrun.resolveFrom (inside host world base hbase) tree rootfs target left path).map
        (physical rootfs) := by
  have hfirst : ∀ path, findLink host (world.graft base hbase tree) rootfs (lit "/") (names path) = _ :=
    fun path => findLink_inside h plain_nil (names path) (names_proper path)
  induction left generalizing path with
  | zero =>
    unfold resolveFrom Sandrun.resolveFrom
    rw [hfirst]
    cases hfound : Sandrun.findLink (inside host world base hbase) tree rootfs [] (names path) with
    | error e => rfl
    | ok found =>
      cases found with
      | none => rfl
      | some found => rfl
  | succ left ih =>
    unfold resolveFrom Sandrun.resolveFrom
    rw [hfirst]
    cases hfound : Sandrun.findLink (inside host world base hbase) tree rootfs [] (names path) with
    | error e => rfl
    | ok found =>
      cases found with
      | none => rfl
      | some found =>
        obtain ⟨above, link, text, rest⟩ := found
        obtain ⟨hsplit, hplain, hkind⟩ := findLink_some plain_nil hfound
        rw [List.nil_append] at hsplit
        have hlink : ProperName link := names_proper path link (by rw [hsplit]; simp)
        have htext := readLink_inside h hplain hlink hkind
        show (do
          attempt host "mount_target_readlink_failed" (physical rootfs (above ++ [link]))
          let link ← ((world.graft base hbase tree).readLink
            (physical rootfs (above ++ [link]))).mapError fun _ =>
              .operation (lit "mount_target_readlink_failed")
                (some (physical rootfs (above ++ [link])))
          let next ← okOr (normalizeInnerPath (rest.foldl push
            (if isAbsolute link then link else push (logical above) link)))
            (invalidTarget target "target escapes rootfs through a symlink")
          resolveFrom host (world.graft base hbase tree) rootfs target left next) = _
        rw [htext]
        show (do
          attempt host "mount_target_readlink_failed" (physical rootfs (above ++ [link]))
          let next ← okOr (normalizeInnerPath (redirect above text rest))
            (invalidTarget target "target escapes rootfs through a symlink")
          resolveFrom host (world.graft base hbase tree) rootfs target left next) =
          Except.map (physical rootfs) (do
          attempt host "mount_target_readlink_failed" (physical rootfs (above ++ [link]))
          let next ← okOr (normalizeInnerPath (redirect above text rest))
            (invalidTarget target "target escapes rootfs through a symlink")
          Sandrun.resolveFrom (inside host world base hbase) tree rootfs target left next)
        cases attempt host "mount_target_readlink_failed" (physical rootfs (above ++ [link])) with
        | error e => rfl
        | ok _ =>
          cases okOr (normalizeInnerPath (redirect above text rest))
              (invalidTarget target "target escapes rootfs through a symlink") with
          | error e => rfl
          | ok next => exact ih

theorem resolveTarget_inside (h : (world.graft base hbase tree).Rooted rootfs base) :
    resolveTarget host (world.graft base hbase tree) rootfs target =
      (resolvePosition (inside host world base hbase) tree rootfs target).map
        (physical rootfs) := by
  unfold resolveTarget resolvePosition
  cases okOr (normalizeInnerPath target) (invalidTarget target "target escapes rootfs") with
  | error e => rfl
  | ok path => exact resolveFrom_inside h 40

/-! ### `ensure_bind_target` -/

theorem enterDirectory_inside (h : (world.graft base hbase tree).Rooted rootfs base)
    (hplain : tree.Plain resolved) (hdirectory : tree.kindAt resolved = some .directory)
    (hname : ProperName name) (path : Bytes) :
    enterDirectory host rootfs path (physical rootfs resolved) name (world.graft base hbase tree) =
      grafted hbase (physical rootfs) (Sandrun.enterDirectory (inside host world base hbase) rootfs
        path resolved name tree) := by
  unfold enterDirectory Sandrun.enterDirectory
  simp only [physical_snoc resolved name]
  apply grafted_bind (lookUp_inside h hplain hdirectory hname _)
  intro found tree' hfound
  obtain ⟨-, rfl, rfl⟩ := lookUp_eq_ok hfound
  cases hkind : tree'.kindAt (resolved ++ [name]) with
  | none =>
    apply grafted_bind (createEntry_inside h hplain hdirectory hname (by simp) _ _ _)
    intro _ made hmade
    have hgrows : tree'.Extends made := (grows_createEntry _ rootfs _ _ _ _ _ _).of_ok hmade
    have hrooted := h.extends (graft_extends hbase hgrows)
    apply grafted_bind
    · apply grafted_reading (f := id)
      rw [stat_entry hrooted (plain_extends hgrows hplain) hname]
      cases Sandrun.stat _ made rootfs (resolved ++ [name]) "bind_target_parent_stat_failed" with
      | error e => rfl
      | ok kind => rfl
    · intro kind after _
      apply grafted_bind (grafted_check _)
      intro _ _ _
      rfl
  | some kind =>
    cases kind with
    | symlink text =>
      apply grafted_bind (f := physical rootfs)
      · apply grafted_reading
        exact resolveTarget_inside h
      · intro next after hnext
        obtain ⟨hnext, rfl⟩ := (reading_eq_ok _ _ _ _).mp hnext
        apply grafted_bind (f := id)
        · apply grafted_reading
          rw [stat_plain h (resolvePosition_plain hnext)]
          cases Sandrun.stat _ after rootfs next "bind_target_parent_stat_failed" with
          | error e => rfl
          | ok kind => rfl
        · intro kind later _
          apply grafted_bind (grafted_check _)
          intro _ _ _
          rfl
    | directory => rfl
    | regular contents => rfl
    | other => rfl

theorem ensureBindTargetDirectory_inside {start : Tree} (above : List Component)
    (habove : ∀ n, Component.normal n ∈ above → ProperName n)
    (h : (world.graft base hbase tree).Rooted rootfs base) (hentered : Entered start tree resolved)
    (path : Bytes) :
    ensureBindTargetDirectory host rootfs target path (physical rootfs resolved) above
        (world.graft base hbase tree) =
      grafted hbase (physical rootfs) (Sandrun.ensureBindTargetDirectory
        (inside host world base hbase) rootfs target path resolved above tree) := by
  induction above generalizing path resolved tree with
  | nil => rfl
  | cons component rest ih =>
    have hrest : ∀ n, Component.normal n ∈ rest → ProperName n := fun n hm =>
      habove n (List.mem_cons_of_mem _ hm)
    cases component with
    | rootDir => exact ih hrest h hentered path
    | normal name =>
      have hname := habove name List.mem_cons_self
      apply grafted_bind (enterDirectory_inside h hentered.plain hentered.directory hname _)
      intro next tree' hstep
      have hgrows := (grows_enterDirectory _ rootfs _ _ _).of_ok hstep
      exact ih hrest (h.extends (graft_extends hbase hgrows))
        (hentered.enter (enterDirectory_eq_ok hstep).2) _
    | curDir => rfl
    | parentDir => rfl

theorem createBindTarget_inside (h : (world.graft base hbase tree).Rooted rootfs base)
    (hplain : tree.Plain parent) (hdirectory : tree.kindAt parent = some .directory)
    (hname : ProperName name) (source : FileKind) :
    createBindTarget host target (physical rootfs (parent ++ [name])) source
        (world.graft base hbase tree) =
      grafted hbase id (Sandrun.createBindTarget (inside host world base hbase) rootfs target parent
        name source tree) := by
  cases source with
  | directory => exact createEntry_inside h hplain hdirectory hname (by simp) _ _ _
  | regular contents => exact createEntry_inside h hplain hdirectory hname (by simp) _ _ _
  | symlink text => rfl
  | other => rfl

theorem proper_of_normal_mem {p : Bytes} (n : Bytes) (h : Component.normal n ∈ components p) :
    ProperName n :=
  names_proper p n (List.mem_filterMap.mpr ⟨_, h, rfl⟩)

theorem mem_parent {p : Bytes} {above : List Component} (h : UnixPath.parent p = some above) :
    ∀ c ∈ above, c ∈ components p := by
  unfold UnixPath.parent at h
  split at h
  · cases h
  · cases h
  · obtain rfl := Option.some.inj h
    exact fun c hm => List.dropLast_subset _ hm

theorem fileName_proper {p : Bytes} (h : fileName p = some name) : ProperName name := by
  unfold fileName at h
  split at h
  · rename_i last hlast
    obtain rfl := Option.some.inj h
    exact proper_of_normal_mem _ (List.mem_of_getLast? hlast)
  · cases h

/-- By path, `ensure_bind_target` does in the host what it does in the rootfs by itself. -/
theorem ensureBindTarget_inside (h : (world.graft base hbase tree).Rooted rootfs base)
    (bind : Bind) :
    ensureBindTarget host rootfs bind (world.graft base hbase tree) =
      grafted hbase id (Sandrun.ensureBindTarget (inside host world base hbase) rootfs bind
        tree) := by
  unfold ensureBindTarget Sandrun.ensureBindTarget
  apply grafted_bind (f := id)
  · apply grafted_reading
    have hsame : bindSource host (world.graft base hbase tree) bind.source =
        bindSource (inside host world base hbase) tree bind.source := rfl
    rw [hsame]
    cases bindSource (inside host world base hbase) tree bind.source with
    | error e => rfl
    | ok found => rfl
  intro found tree₁ hfound
  obtain ⟨-, rfl⟩ := (reading_eq_ok _ _ _ _).mp hfound
  apply grafted_bind (grafted_check _)
  intro above tree₂ habove
  obtain ⟨hparent, rfl⟩ := (reading_eq_ok _ _ _ _).mp habove
  rw [okOr_eq_ok] at hparent
  apply grafted_bind
    (ensureBindTargetDirectory_inside above (fun n hm => proper_of_normal_mem n (mem_parent hparent _ hm))
      h (entered_start _) (lit "/"))
  intro directory tree₃ hdown
  have hentered := ensureBindTargetDirectory_entered above (entered_start tree₂) hdown
  have hrooted := h.extends (graft_extends hbase hentered.grown)
  apply grafted_bind (grafted_check _)
  intro name tree₄ hname
  obtain ⟨hfile, rfl⟩ := (reading_eq_ok _ _ _ _).mp hname
  rw [okOr_eq_ok] at hfile
  have hproper := fileName_proper hfile
  simp only [id_eq, physical_snoc directory name]
  apply grafted_bind (lookUp_inside hrooted hentered.plain hentered.directory hproper _)
  intro kind tree₅ hkind
  obtain ⟨-, rfl, rfl⟩ := lookUp_eq_ok hkind
  cases FileTree.kindAt _ (directory ++ [name]) with
  | none => exact createBindTarget_inside hrooted hentered.plain hentered.directory hproper _
  | some kind => rfl

end Inside

end Sandcamp.Sandrun.ByPath
