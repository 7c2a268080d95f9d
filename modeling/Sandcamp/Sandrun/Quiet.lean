import Sandcamp.Foundations.Handlers
import Sandcamp.Sandrun.Containment
import Sandcamp.Sandrun.Linux

/-!
# The calls on files that nobody else changes (linux.rs:869-1156)

Where the files are one tree that only sandrun changes, the calls that prepare the targets of the
binds do to it what the functions of `ByPath` do, errors included.
-/

namespace Sandcamp.Sandrun.Quiet
open Foundations Foundations.UnixPath Foundations.FileTree

/-! ### The answers -/

def fileTypeOf : FileKind → FileType
  | .directory => .directory
  | .regular _ => .regular
  | .symlink _ => .symlink
  | .other => .other

/-- The preparation of targets asks for the type only. -/
def metadataOf (kind : FileKind) : Metadata where
  fileType := fileTypeOf kind
  len := match kind with
    | .regular contents => contents.length
    | _ => 0
  uid := 0
  gid := 0
  mode := 0

section Answers

variable (host : Host) (broken : Bytes → Bool)

/-- `stat` and `lstat`; calls on a broken path fail. -/
def statusReply (world : Tree) (last : Bool) (path : Bytes) : Except ErrorKind Metadata :=
  if broken path then .error .other
  else match world.status last path with
    | .ok kind => .ok (metadataOf kind)
    | .error .noEntry => .error .notFound
    | .error _ => .error .other

/-- `mkdir`, and `open` with `O_CREAT` and `O_EXCL`. -/
def makeReply (world : Tree) (path : Bytes) (kind : FileKind) (mode : ℕ) : Creation × Tree :=
  if broken path then (.failed, world)
  else match world.makeAt path ⟨kind, ⟨0, 0, host.masked mode⟩⟩ with
    | .ok world' => (.created, world')
    | .error .alreadyExists => (.alreadyExists, world)
    | .error _ => (.failed, world)

/-- `chmod`. -/
def changeReply (world : Tree) (path : Bytes) (mode : ℕ) : Bool × Tree :=
  if broken path then (false, world)
  else match world.changeAt path fun attributes => { attributes with mode := mode } with
    | .ok world' => (true, world')
    | .error _ => (false, world)

/-- The answers of the tree; the calls behind the first ones are not made here. -/
def files : Handler Tree Syscall Reply
  | world, .canonicalize path =>
    ((okOr (host.canonicalize world path) .other : Except ErrorKind Bytes), world)
  | world, .metadata path => (statusReply broken world true path, world)
  | world, .symlinkMetadata path => (statusReply broken world false path, world)
  | world, .readLink path =>
    (if broken path then none else (world.readLink path).toOption, world)
  | world, .mkdir path mode => makeReply host broken world path .directory mode
  | world, .createNew path mode => makeReply host broken world path (.regular []) mode
  | world, .setPermissions path mode => changeReply broken world path mode
  | world, .mkdirAll .. => (false, world)
  | world, .readFile .. | world, .read _ => (none, world)
  | world, .instant => ((0, 0), world)
  | world, .ids => ((0, 0, 0, 0), world)
  | world, .openLock .. | world, .flock | world, .inheritLock => (false, world)
  | world, .writeAll .. | world, .chown .. | world, .removeFile _ => (false, world)
  | world, .unshare | world, .mount .. | world, .chdir _ | world, .pivotRoot => (false, world)
  | world, .detach | world, .credential _ | world, .exec .. => (false, world)

/-- A host whose calls fail on broken paths, and whose `metadata` is that of the tree. -/
structure Still : Prop where
  fault : ∀ operation path, host.fault operation path = broken path
  metadata : ∀ tree path, host.metadata tree path =
    if broken path then none else (tree.status true path).toOption

end Answers

/-- The thread does to the tree what the action does. -/
abbrev Does {α β : Type} (host : Host) (broken : Bytes → Bool) (f : β → α) (t : Linux α)
    (x : Preparation β) : Prop :=
  Simulates (files host broken) Failure.error f t x

section Does

variable {host : Host} {broken : Bytes → Bool}

/-! ### Checks -/

theorem check_does (condition : Bool) (refused : Prop) [Decidable refused] (error : RuntimeError)
    (h : condition = true ↔ ¬refused) :
    Does host broken id (Linux.check condition error)
      (reading fun _ => rejectIf refused error) := by
  intro world
  by_cases hrefused : refused
  · have hcondition : condition = false := by
      rw [← Bool.not_eq_true, h]
      exact not_not.mpr hrefused
    rw [Linux.check, hcondition, rejectIf, if_pos hrefused]
    rfl
  · rw [Linux.check, h.mpr hrefused, rejectIf, if_neg hrefused]
    rfl

theorem orRefuse_does {α : Type} (value : Option α) (error : RuntimeError) :
    Does host broken id (Linux.orRefuse value error) (reading fun _ => okOr value error) := by
  intro world
  cases value with
  | none => rfl
  | some a => rfl

/-! ### Looking -/

theorem attempt_still (still : Still host broken) (operation : String) (path : Bytes) :
    attempt host operation path =
      if broken path then .error (.operation (lit operation) (some path)) else .ok () := by
  rw [attempt, rejectIf, still.fault]

/-- One status call with its error. -/
theorem status_does (still : Still host broken) (last : Bool) (path : Bytes) (operation : String)
    (world : Tree) :
    (match (statusReply broken world last path).toOption with
      | some found => (.ok found world : EStateM.Result (Failure RuntimeError) Tree Metadata)
      | none => .error (.error (Linux.failed operation path)) world) =
      reworded Failure.error metadataOf
        (reading (fun world => ByPath.stat host world last path operation) world) := by
  simp only [statusReply, ByPath.stat, reading, attempt_still still]
  by_cases hbroken : broken path = true
  · rw [if_pos hbroken, if_pos hbroken]
    rfl
  · rw [if_neg hbroken, if_neg hbroken]
    cases world.status last path with
    | ok kind => rfl
    | error e => cases e <;> rfl

theorem metadata_does (still : Still host broken) (path : Bytes) (operation : String) :
    Does host broken metadataOf (Linux.metadata path operation)
      (reading fun world => ByPath.stat host world true path operation) := by
  intro world
  rw [← status_does still]
  show Thread.runWith _ (Linux.orRefuse (statusReply broken world true path).toOption _) world = _
  cases (statusReply broken world true path).toOption with
  | none => rfl
  | some found => rfl

theorem symlinkMetadata_does (still : Still host broken) (path : Bytes) (operation : String) :
    Does host broken metadataOf (Linux.symlinkMetadata path operation)
      (reading fun world => ByPath.stat host world false path operation) := by
  intro world
  rw [← status_does still]
  show Thread.runWith _ (Linux.orRefuse (statusReply broken world false path).toOption _) world = _
  cases (statusReply broken world false path).toOption with
  | none => rfl
  | some found => rfl

theorem lookUp_does (still : Still host broken) (path : Bytes) (operation : String) :
    Does host broken (Option.map metadataOf) (Linux.lookUp path operation)
      (ByPath.lookUp host path operation) := by
  intro world
  have hreply : files host broken world (.symlinkMetadata path) =
      (statusReply broken world false path, world) := rfl
  unfold Linux.lookUp syscall ByPath.lookUp
  rw [Thread.runWith_perform, hreply]
  show _ = reworded _ _ (EStateM.bind _ _ world)
  simp only [statusReply, EStateM.bind, reading, attempt_still still]
  by_cases hbroken : broken path = true
  · rw [if_pos hbroken, if_pos hbroken]
    rfl
  · rw [if_neg hbroken, if_neg hbroken]
    dsimp only
    cases world.status false path with
    | ok kind => rfl
    | error e => cases e <;> rfl

theorem findLink_does (still : Still host broken) (physical innerParent : Bytes)
    (components : List Bytes) :
    Does host broken id (Linux.findLink physical innerParent components)
      (reading fun world => ByPath.findLink host world physical innerParent components) := by
  induction components generalizing physical innerParent with
  | nil => exact fun _ => rfl
  | cons component rest ih =>
    unfold Linux.findLink ByPath.findLink
    rw [reading_bind]
    refine simulates_bind (symlinkMetadata_does still _ _) fun kind => ?_
    cases kind with
    | symlink text => exact fun _ => rfl
    | directory => exact ih _ _
    | regular contents => exact ih _ _
    | other => exact ih _ _

theorem readLink_does (still : Still host broken) (path : Bytes) {α : Type} (f : Bytes → Linux α)
    (g : Bytes → Tree → Except RuntimeError α)
    (hfg : ∀ link, Does host broken id (f link) (reading (g link))) :
    Does host broken id
      (do
        let link ← syscall (.readLink path)
        let link ← Linux.orRefuse link (Linux.failed "mount_target_readlink_failed" path)
        f link)
      (reading fun world => do
        attempt host "mount_target_readlink_failed" path
        let link ← (world.readLink path).mapError fun _ =>
          RuntimeError.operation (lit "mount_target_readlink_failed") (some path)
        g link world) := by
  intro world
  show Thread.runWith _ (Linux.orRefuse (if broken path then none else
    (world.readLink path).toOption) _ >>= f) world = _
  rw [Thread.runWith_bind]
  show EStateM.bind _ _ world = _
  simp only [reading, attempt_still still]
  by_cases hbroken : broken path = true
  · rw [if_pos hbroken, if_pos hbroken]
    rfl
  · rw [if_neg hbroken, if_neg hbroken]
    cases world.readLink path with
    | error e => rfl
    | ok link => exact hfg link world

theorem resolveFrom_does (still : Still host broken) (rootfs target : Bytes) (left : ℕ)
    (path : Bytes) :
    Does host broken id (Linux.resolveFrom rootfs target left path)
      (reading fun world => ByPath.resolveFrom host world rootfs target left path) := by
  induction left generalizing path with
  | zero =>
    unfold Linux.resolveFrom ByPath.resolveFrom
    rw [reading_bind]
    refine simulates_bind (findLink_does still _ _ _) fun found => ?_
    cases found with
    | none => exact fun _ => rfl
    | some found => exact fun _ => rfl
  | succ left ih =>
    unfold Linux.resolveFrom ByPath.resolveFrom
    rw [reading_bind]
    refine simulates_bind (findLink_does still _ _ _) fun found => ?_
    cases found with
    | none => exact fun _ => rfl
    | some found =>
      obtain ⟨physical, innerParent, rest⟩ := found
      refine readLink_does still physical _ _ fun link => ?_
      dsimp only
      rw [reading_bind]
      refine simulates_bind (orRefuse_does _ _) fun next => ?_
      exact ih next

theorem resolveTarget_does (still : Still host broken) (rootfs target : Bytes) :
    Does host broken id (Linux.resolveTarget rootfs target)
      (reading fun world => ByPath.resolveTarget host world rootfs target) := by
  unfold Linux.resolveTarget ByPath.resolveTarget
  rw [reading_bind]
  exact simulates_bind (orRefuse_does _ _) fun path => resolveFrom_does still _ _ _ _

/-! ### Making -/

theorem make_reply (still : Still host broken) (path : Bytes) (kind : FileKind) (mode : ℕ)
    (operation : String) (world : Tree) :
    (.ok (makeReply host broken world path kind mode).1
        (makeReply host broken world path kind mode).2 :
      EStateM.Result (Failure RuntimeError) Tree Creation) =
      reworded Failure.error id (ByPath.makeEntry host path kind mode operation world) := by
  unfold makeReply ByPath.makeEntry
  rw [still.fault]
  by_cases hbroken : broken path = true
  · rw [if_pos hbroken, if_pos hbroken]
    rfl
  · rw [if_neg hbroken, if_neg hbroken]
    cases world.makeAt path ⟨kind, ⟨0, 0, host.masked mode⟩⟩ with
    | ok world' => rfl
    | error e => cases e <;> rfl

theorem mkdir_does (still : Still host broken) (path : Bytes) (mode : ℕ) (operation : String) :
    Does host broken id (syscall (.mkdir path mode))
      (ByPath.makeEntry host path .directory mode operation) :=
  fun world => make_reply still path .directory mode operation world

theorem createNew_does (still : Still host broken) (path : Bytes) (mode : ℕ)
    (operation : String) :
    Does host broken id (syscall (.createNew path mode))
      (ByPath.makeEntry host path (.regular []) mode operation) :=
  fun world => make_reply still path (.regular []) mode operation world

theorem setPermissions_does (still : Still host broken) (path : Bytes) (mode : ℕ)
    (operation : String) :
    Does host broken id
      (do
        let changed ← syscall (.setPermissions path mode)
        Linux.check changed (Linux.failed operation path))
      (ByPath.changeMode host path mode operation) := by
  intro world
  have hreply : files host broken world (.setPermissions path mode) =
      changeReply broken world path mode := rfl
  unfold syscall ByPath.changeMode
  rw [Thread.runWith_perform, hreply]
  show _ = reworded _ _ (EStateM.bind _ _ world)
  simp only [changeReply, EStateM.bind, reading, attempt_still still]
  by_cases hbroken : broken path = true
  · rw [if_pos hbroken, if_pos hbroken]
    rfl
  · rw [if_neg hbroken, if_neg hbroken]
    dsimp only
    cases world.changeAt path fun attributes => { attributes with mode := mode } with
    | ok world' => rfl
    | error e => rfl

theorem createDirectory_does (still : Still host broken) (path : Bytes)
    (createOperation chmodOperation : String) :
    Does host broken id (Linux.createDirectory path createOperation chmodOperation)
      (ByPath.createDirectory host path createOperation chmodOperation) := by
  unfold Linux.createDirectory ByPath.createDirectory ByPath.createEntry
  refine simulates_bind (mkdir_does still _ _ _) fun creation => ?_
  cases creation with
  | created => exact setPermissions_does still _ _ _
  | alreadyExists => exact simulates_pure ()
  | failed => exact simulates_fail _

theorem createBindTarget_does (still : Still host broken) (target path : Bytes)
    (kind : FileKind) :
    Does host broken id (Linux.createBindTarget target path (fileTypeOf kind))
      (ByPath.createBindTarget host target path kind) := by
  unfold Linux.createBindTarget ByPath.createBindTarget
  cases kind with
  | directory =>
    refine simulates_bind (simulates_map (mkdir_does still path createdDirectoryMode _)
      fun creation => (creation, createdDirectoryMode)) fun creation => ?_
    cases creation with
    | created => exact setPermissions_does still _ _ _
    | alreadyExists => exact simulates_pure ()
    | failed => exact simulates_fail _
  | regular contents =>
    refine simulates_bind (simulates_map (createNew_does still path createdFileMode _)
      fun creation => (creation, createdFileMode)) fun creation => ?_
    cases creation with
    | created => exact setPermissions_does still _ _ _
    | alreadyExists => exact simulates_pure ()
    | failed => exact simulates_fail _
  | symlink text => exact simulates_fail _
  | other => exact simulates_fail _

/-! ### The targets -/

theorem directory_iff (kind : FileKind) :
    decide ((metadataOf kind).fileType = .directory) = true ↔ ¬kind ≠ .directory := by
  cases kind <;> simp [metadataOf, fileTypeOf]

theorem enterDirectory_does (still : Still host broken)
    (rootfs logical resolved name : Bytes) :
    Does host broken id (Linux.enterDirectory rootfs logical resolved name)
      (ByPath.enterDirectory host rootfs logical resolved name) := by
  unfold Linux.enterDirectory ByPath.enterDirectory
  refine simulates_bind (lookUp_does still _ _) fun found => ?_
  cases found with
  | none =>
    refine simulates_bind (createDirectory_does still _ _ _) fun _ => ?_
    refine simulates_bind (symlinkMetadata_does still _ _) fun kind => ?_
    refine simulates_bind (check_does _ _ _ (directory_iff kind)) fun _ => ?_
    exact simulates_pure _
  | some kind =>
    cases kind with
    | symlink text =>
      refine simulates_bind (resolveTarget_does still _ _) fun resolved => ?_
      refine simulates_bind (metadata_does still _ _) fun kind => ?_
      refine simulates_bind (check_does _ _ _ (directory_iff kind)) fun _ => ?_
      exact simulates_pure _
    | directory => exact fun _ => rfl
    | regular contents => exact fun _ => rfl
    | other => exact fun _ => rfl

theorem ensureBindTargetDirectory_does (still : Still host broken)
    (rootfs target logical resolved : Bytes) (above : List Component) :
    Does host broken id (Linux.ensureBindTargetDirectory rootfs target logical resolved above)
      (ByPath.ensureBindTargetDirectory host rootfs target logical resolved above) := by
  induction above generalizing logical resolved with
  | nil => exact simulates_pure _
  | cons component rest ih =>
    cases component with
    | rootDir => exact ih _ _
    | normal name =>
      exact simulates_bind (enterDirectory_does still _ _ _ _) fun resolved => ih _ resolved
    | _ => exact simulates_fail _

theorem canonicalize_does (path : Bytes) (operation : String) :
    Does host broken id (Linux.canonicalize path operation)
      (reading fun world =>
        okOr (host.canonicalize world path) (.operation (lit operation) (some path))) := by
  intro world
  show Thread.runWith _ (Linux.orRefuse
    (okOr (host.canonicalize world path) ErrorKind.other).toOption _) world = _
  simp only [reading]
  cases host.canonicalize world path with
  | none => rfl
  | some canonical => rfl

theorem sourceMetadata_does (still : Still host broken) (path : Bytes) (operation : String) :
    Does host broken metadataOf (Linux.metadata path operation)
      (reading fun world =>
        okOr (host.metadata world path) (.operation (lit operation) (some path))) := by
  have hsame : (fun world => okOr (host.metadata world path)
      (RuntimeError.operation (lit operation) (some path))) =
      fun world => ByPath.stat host world true path operation := by
    funext world
    rw [still.metadata, ByPath.stat, attempt_still still]
    by_cases hbroken : broken path = true
    · rw [if_pos hbroken, if_pos hbroken]
      rfl
    · rw [if_neg hbroken, if_neg hbroken]
      cases world.status true path with
      | ok kind => rfl
      | error e => rfl
  rw [hsame]
  exact metadata_does still path operation

theorem ensureBindTarget_does (still : Still host broken) (rootfs : Bytes) (bind : Bind) :
    Does host broken id (Linux.ensureBindTarget rootfs bind)
      (ByPath.ensureBindTarget host rootfs bind) := by
  unfold Linux.ensureBindTarget ByPath.ensureBindTarget bindSource
  rw [reading_bind, bind_assoc]
  refine simulates_bind (canonicalize_does _ _) fun source => ?_
  rw [reading_bind, bind_assoc]
  refine simulates_bind (sourceMetadata_does still _ _) fun kind => ?_
  show Does host broken id _ (pure (source, kind) >>= _)
  rw [pure_bind]
  refine simulates_bind (orRefuse_does _ _) fun above => ?_
  refine simulates_bind (ensureBindTargetDirectory_does still _ _ _ _ _) fun directory => ?_
  refine simulates_bind (orRefuse_does _ _) fun name => ?_
  refine simulates_bind (lookUp_does still _ _) fun found => ?_
  cases found with
  | none => exact createBindTarget_does still _ _ kind
  | some found => exact simulates_pure ()

/-- The calls that prepare the targets of the binds, on files of their own. -/
theorem prepareBindTargets_does (still : Still host broken) (rootfs : Bytes)
    (binds : List Bind) :
    Does host broken id (Linux.prepareBindTargets rootfs binds)
      (forEachAction (ByPath.ensureBindTarget host rootfs) binds) :=
  simulates_each (ensureBindTarget_does still rootfs) binds

end Does

/-! ### In the tree of the rootfs -/

section Rootfs

variable {host : Host} {broken : Bytes → Bool} {world : Tree} {base : Position} {rootfs : Bytes}

theorem prepareBindTargets_inside {hbase : world.kindAt base = some .directory}
    (binds : List Bind) {tree : Tree} (h : (world.graft base hbase tree).Rooted rootfs base) :
    forEachAction (ByPath.ensureBindTarget host rootfs) binds (world.graft base hbase tree) =
      ByPath.grafted hbase id
        (prepareBindTargets (ByPath.inside host world base hbase) rootfs binds tree) := by
  unfold prepareBindTargets
  induction binds generalizing tree with
  | nil => rfl
  | cons bind rest ih =>
    refine ByPath.grafted_bind (ByPath.ensureBindTarget_inside h bind) fun _ tree' hok => ?_
    have hgrown := (grows_ensureBindTarget (ByPath.inside host world base hbase) rootfs
      bind).of_ok hok
    exact ih (h.extends (graft_extends hbase hgrown))

theorem grows_prepareBindTargets (host : Host) (rootfs : Bytes) (binds : List Bind) :
    Grows (prepareBindTargets host rootfs binds) := by
  unfold prepareBindTargets
  induction binds with
  | nil => exact grows_pure _
  | cons bind rest ih => exact grows_bind _ _ (grows_ensureBindTarget host rootfs bind) fun _ => ih

/-- The calls are a course of sandrun, they end as the functions on the tree of the rootfs by
itself end, and they only add, below the rootfs. -/
structure Prepares (host : Host) (broken : Bytes → Bool) (rootfs : Bytes) (base : Position)
    (binds : List Bind) (world : Tree) (hbase : world.kindAt base = some .directory) : Prop where
  course : ∃ history, Thread.Course (Linux.prepareBindTargets rootfs binds) history
    (.ofEnd ((Linux.prepareBindTargets rootfs binds).runWith (files host broken) world))
  same : (Linux.prepareBindTargets rootfs binds).runWith (files host broken) world =
    reworded Failure.error id (ByPath.grafted hbase id
      (prepareBindTargets (ByPath.inside host world base hbase) rootfs binds
        (world.below base hbase)))
  contained : ByPath.OnlyAdds base world
    (after ((Linux.prepareBindTargets rootfs binds).runWith (files host broken) world))

theorem after_reworded {ε ε' α β : Type} (g : ε' → ε) (f : β → α)
    (result : EStateM.Result ε' Tree β) : after (reworded g f result) = after result := by
  cases result with
  | ok b tree => rfl
  | error e tree => rfl

/-- However the calls end on files that nobody else changes, with whatever paths broken. -/
theorem prepareBindTargets_prepares (host : Host) (broken : Bytes → Bool) (rootfs : Bytes)
    (base : Position) (binds : List Bind) (world : Tree) (still : Still host broken)
    (hrooted : world.Rooted rootfs base) :
    Prepares host broken rootfs base binds world hrooted.directory := by
  have hrun := prepareBindTargets_does still rootfs binds world
  have hinside : forEachAction (ByPath.ensureBindTarget host rootfs) binds
      (world.graft base hrooted.directory (world.below base hrooted.directory)) = _ :=
    prepareBindTargets_inside binds (ByPath.rooted_graft hrooted (Extends.refl _))
  rw [graft_below] at hinside
  rw [hinside] at hrun
  constructor
  · exact Thread.course_runWith (files host broken) (Linux.prepareBindTargets rootfs binds) world
  · exact hrun
  · rw [hrun, after_reworded, ByPath.state_grafted]
    have hadds : ByPath.OnlyAdds base (world.graft base hrooted.directory _) _ :=
      ByPath.onlyAdds_graft (grows_prepareBindTargets (ByPath.inside host world base
        hrooted.directory) rootfs binds (world.below base hrooted.directory))
    rw [graft_below] at hadds
    exact hadds

end Rootfs

theorem still_static (broken : Bytes → Bool) (umask : ℕ) :
    Still { ByPath.staticHost (fun _ path => broken path) umask with
      metadata := fun tree path => if broken path then none else (tree.status true path).toOption }
      broken :=
  ⟨fun _ _ => rfl, fun _ _ => rfl⟩

theorem prepareBindTargets_prepares_srv :
    let host : Host := { ByPath.staticHost (fun _ _ => false) 0o22 with
      metadata := fun tree path => if false then none else (tree.status true path).toOption }
    let binds : List Bind := [⟨lit "/data", lit "/srv/app/data", false⟩]
    (∃ hbase, Prepares host (fun _ => false) (lit "/image") [lit "image"] binds
      ByPath.hostTree hbase) ∧
    succeeds ((Linux.prepareBindTargets (lit "/image") binds).runWith
      (files host fun _ => false) ByPath.hostTree) = true := by
  have hrooted : ByPath.hostTree.Rooted (lit "/image") [lit "image"] :=
    ⟨by decide, by decide +kernel, by decide +kernel⟩
  constructor
  · exact ⟨hrooted.directory, prepareBindTargets_prepares _ _ _ _ _ _
      (still_static (fun _ => false) 0o22) hrooted⟩
  · decide +kernel

end Sandcamp.Sandrun.Quiet
