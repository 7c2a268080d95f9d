import Sandcamp.Foundations.Actions
import Sandcamp.Sandrun.Rootfs

/-!
# Preparing the mounts (linux.rs:96-121, 583-702, 830-1079)

Between the overlay mount and the first bind mount, `run` works on the merged rootfs
only: it makes missing bind targets, checks the workdir and the command, checks the
resolved targets against each other, and resolves every mount it is about to make.
-/

namespace Sandcamp.Sandrun
open Foundations Foundations.UnixPath

/-- A step that may add to the rootfs. -/
abbrev Preparation (α : Type) : Type := EStateM RuntimeError Tree α

def createdDirectoryMode : ℕ := 0o777

def createdFileMode : ℕ := 0o666

/-- The mode a new entry gets. -/
def Host.masked (host : Host) (mode : ℕ) : ℕ := mode &&& (0o7777 ^^^ (host.umask &&& 0o7777))

/-! ### Missing bind targets -/

/-- `DirBuilder::create`, and `OpenOptions` with `create_new(true)`. -/
def makeEntry (host : Host) (rootfs : Bytes) (parent : Position) (name : Bytes) (kind : FileKind)
    (mode : ℕ) (operation : String) : Preparation Creation := fun tree =>
  if host.fault (lit operation) (physical rootfs (parent ++ [name])) then .ok .failed tree
  else match tree.create parent name ⟨kind, ⟨0, 0, host.masked mode⟩⟩ with
    | some tree' => .ok .created tree'
    | none =>
      .ok (if (tree.lookup (parent ++ [name])).isSome then .alreadyExists else .failed) tree

/-- `fs::set_permissions`. -/
def changeMode (host : Host) (rootfs : Bytes) (position : Position) (mode : ℕ)
    (operation : String) : Preparation Unit := do
  reading fun _ => attempt host operation (physical rootfs position)
  modify fun tree => tree.setAttributes position fun attributes => { attributes with mode := mode }

/-- A new entry and its mode; one that is there by now is left alone. -/
def createEntry (host : Host) (rootfs : Bytes) (parent : Position) (name : Bytes)
    (kind : FileKind) (mode : ℕ) (createOperation chmodOperation : String) : Preparation Unit := do
  match ← makeEntry host rootfs parent name kind mode createOperation with
  | .created => changeMode host rootfs (parent ++ [name]) mode chmodOperation
  | .alreadyExists => pure ()
  | .failed =>
    throw (.operation (lit createOperation) (some (physical rootfs (parent ++ [name]))))

/-- `create_directory` (`linux.rs:1021-1038`). -/
def createDirectory (host : Host) (rootfs : Bytes) (parent : Position) (name : Bytes)
    (createOperation chmodOperation : String) : Preparation Unit :=
  createEntry host rootfs parent name .directory createdDirectoryMode createOperation
    chmodOperation

/-- `fs::symlink_metadata`, where a missing entry is no error. -/
def lookUp (host : Host) (rootfs : Bytes) (position : Position) (operation : String) :
    Preparation (Option FileKind) := do
  reading fun _ => attempt host operation (physical rootfs position)
  reading fun tree => .ok (tree.kindAt position)

/-- One name of `ensure_bind_target_directory`. -/
def enterDirectory (host : Host) (rootfs path : Bytes) (resolved : Position) (name : Bytes) :
    Preparation Position := do
  let candidate := resolved ++ [name]
  match ← lookUp host rootfs candidate "bind_target_parent_stat_failed" with
  | some (.symlink _) => do
    let resolved ← reading fun tree => resolvePosition host tree rootfs path
    let kind ← reading fun tree => stat host tree rootfs resolved "bind_target_parent_stat_failed"
    reading fun _ => rejectIf (kind ≠ .directory)
      (invalidTarget path "bind target parent is not a directory")
    pure resolved
  | some .directory => pure candidate
  | some _ => throw (invalidTarget path "bind target parent is not a directory")
  | none => do
    createDirectory host rootfs resolved name "bind_target_parent_create_failed"
      "bind_target_parent_chmod_failed"
    let kind ← reading fun tree => stat host tree rootfs candidate "bind_target_parent_stat_failed"
    reading fun _ => rejectIf (kind ≠ .directory)
      (invalidTarget path "bind target parent is not a real directory")
    pure candidate

/-- The loop of `ensure_bind_target_directory` (`linux.rs:947-1019`). -/
def ensureBindTargetDirectory (host : Host) (rootfs target : Bytes) (path : Bytes)
    (resolved : Position) : List Component → Preparation Position
  | [] => pure resolved
  | .rootDir :: rest => ensureBindTargetDirectory host rootfs target path resolved rest
  | .normal name :: rest => do
    let path := push path name
    let resolved ← enterDirectory host rootfs path resolved name
    ensureBindTargetDirectory host rootfs target path resolved rest
  | _ => throw (invalidTarget target "bind target parent escapes rootfs")

/-- The source of a bind: its canonical path and what lies there. -/
def bindSource (host : Host) (tree : Tree) (source : Bytes) :
    Except RuntimeError (Bytes × FileKind) := do
  let canonical ← okOr (host.canonicalize tree source)
    (.operation (lit "bind_source_resolve_failed") (some source))
  let kind ← okOr (host.metadata tree canonical)
    (.operation (lit "bind_source_stat_failed") (some canonical))
  .ok (canonical, kind)

/-- The missing entry that `ensure_bind_target` makes for a source of this kind. -/
def createBindTarget (host : Host) (rootfs target : Bytes) (parent : Position) (name : Bytes)
    (source : FileKind) : Preparation Unit :=
  match source with
  | .directory => createEntry host rootfs parent name .directory createdDirectoryMode
      "bind_target_create_failed" "bind_target_chmod_failed"
  | .regular _ => createEntry host rootfs parent name (.regular []) createdFileMode
      "bind_target_create_failed" "bind_target_chmod_failed"
  | _ => throw (invalidTarget target
      "missing bind target cannot be created for this source type")

/-- `ensure_bind_target` (`linux.rs:876-945`). -/
def ensureBindTarget (host : Host) (rootfs : Bytes) (bind : Bind) : Preparation Unit := do
  let (_, source) ← reading fun tree => bindSource host tree bind.source
  let above ← reading fun _ =>
    okOr (parent bind.target) (invalidTarget bind.target "bind target has no parent")
  let directory ← ensureBindTargetDirectory host rootfs (fromComponents above) (lit "/") [] above
  let name ← reading fun _ =>
    okOr (fileName bind.target) (invalidTarget bind.target "bind target has no file name")
  match ← lookUp host rootfs (directory ++ [name]) "bind_target_stat_failed" with
  | some _ => pure ()
  | none => createBindTarget host rootfs bind.target directory name source

/-- `prepare_bind_targets` (`linux.rs:869-874`). -/
def prepareBindTargets (host : Host) (rootfs : Bytes) (binds : List Bind) : Preparation Unit :=
  forEachAction (ensureBindTarget host rootfs) binds

/-! ### Mount operations -/

structure PreparedBind where
  source : Bytes
  target : Bytes
  readonly : Bool
  recursive : Bool
  deriving DecidableEq

inductive MountOperation where
  | proc (target : Bytes)
  | bind (bind : PreparedBind)
  | tmpfs (target : Bytes) (mode : ℕ)
  | dnsFiles (target resolvConf hosts : Bytes)
  deriving DecidableEq

/-- Where `apply_mount` mounts. -/
def MountOperation.targets : MountOperation → List Bytes
  | .proc target => [target]
  | .bind mount => [mount.target]
  | .tmpfs target _ => [target]
  | .dnsFiles target _ _ => [push target (lit "resolv.conf"), push target (lit "hosts")]

def isDir (kind : FileKind) : Bool := kind matches .directory

def isFile (kind : FileKind) : Bool := kind matches .regular _

/-- `prepare_bind_with_recursion` (`linux.rs:1040-1067`). -/
def prepareBindWithRecursion (host : Host) (tree : Tree) (rootfs : Bytes) (bind : Bind)
    (recursive : Bool) : Except RuntimeError PreparedBind := do
  let source ← okOr (host.canonicalize tree bind.source)
    (.operation (lit "bind_source_resolve_failed") (some bind.source))
  let target ← resolvePosition host tree rootfs bind.target
  let sourceKind ← okOr (host.metadata tree source)
    (.operation (lit "bind_source_stat_failed") (some source))
  let targetKind ← stat host tree rootfs target "bind_target_stat_failed"
  rejectIf (isDir sourceKind ≠ isDir targetKind ∨ isFile sourceKind ≠ isFile targetKind)
    (.incompatibleBind source (physical rootfs target))
  .ok ⟨source, physical rootfs target, bind.readonly, recursive && isDir sourceKind⟩

/-- `prepare_bind` (`linux.rs:725-727`). -/
def prepareBind (host : Host) (tree : Tree) (rootfs : Bytes) (bind : Bind) :
    Except RuntimeError PreparedBind := prepareBindWithRecursion host tree rootfs bind false

/-- `prepare_recursive_bind` (`linux.rs:729-731`). -/
def prepareRecursiveBind (host : Host) (tree : Tree) (rootfs : Bytes) (bind : Bind) :
    Except RuntimeError PreparedBind := prepareBindWithRecursion host tree rootfs bind true

/-- `prepare_regular_source` (`linux.rs:1069-1079`). -/
def prepareRegularSource (host : Host) (tree : Tree) (path : Bytes) :
    Except RuntimeError Bytes := do
  let (source, kind) ← bindSource host tree path
  rejectIf (isFile kind = false) (invalidTarget path "bind source is not a regular file")
  .ok source

/-- `host_cgroup_bind` (`linux.rs:861-867`). -/
def hostCgroupBind : Bind := ⟨lit "/sys/fs/cgroup", lit "/sys/fs/cgroup", false⟩

/-- The mounts of `--standard-mounts`. -/
def prepareStandardMounts (host : Host) (tree : Tree) (rootfs : Bytes) :
    Bool → Except RuntimeError (List MountOperation)
  | false => .ok []
  | true => do
    let proc ← resolveDirectory host tree rootfs (lit "/proc")
    let dev ← prepareRecursiveBind host tree rootfs ⟨lit "/dev", lit "/dev", false⟩
    let sys ← prepareBind host tree rootfs ⟨lit "/sys", lit "/sys", true⟩
    let cgroup ← prepareRecursiveBind host tree rootfs hostCgroupBind
    let tmp ← resolveDirectory host tree rootfs (lit "/tmp")
    let run ← resolveDirectory host tree rootfs (lit "/run")
    let etc ← resolveDirectory host tree rootfs (lit "/etc")
    let resolvConf ← prepareRegularSource host tree (lit "/etc/resolv.conf")
    let hosts ← prepareRegularSource host tree (lit "/etc/hosts")
    .ok [.proc proc, .bind dev, .bind sys, .bind cgroup, .tmpfs tmp 0o1777, .tmpfs run 0o755,
      .dnsFiles etc resolvConf hosts]

/-- `prepare_mounts` (`linux.rs:617-668`). -/
def prepareMounts (host : Host) (tree : Tree) (rootfs : Bytes) (config : Config) :
    Except RuntimeError (List MountOperation) := do
  let standard ← prepareStandardMounts host tree rootfs config.standardMounts
  let binds ← config.binds.mapM (prepareBind host tree rootfs)
  let tmpfs ← config.tmpfs.mapM (resolveDirectory host tree rootfs)
  .ok (standard ++ binds.map .bind ++ tmpfs.map fun target => .tmpfs target 0o755)

/-! ### Checks before the mounts -/

/-- `prepare_workdir` (`linux.rs:583-595`). -/
def prepareWorkdir (host : Host) (tree : Tree) (rootfs workdir : Bytes) :
    Except RuntimeError Unit := do
  let resolved ← resolvePosition host tree rootfs workdir
  let kind ← stat host tree rootfs resolved "workdir_stat_failed"
  rejectIf (isDir kind = false) (invalidTarget workdir "workdir is not a directory")

/-- `prepare_executable` (`linux.rs:597-615`). -/
def prepareExecutable (host : Host) (tree : Tree) (rootfs executable : Bytes) :
    Except RuntimeError Unit := do
  let resolved ← resolvePosition host tree rootfs executable
  let kind ← stat host tree rootfs resolved "executable_stat_failed"
  rejectIf (isFile kind = false) (invalidTarget executable "command is not a regular file")
  let mode := ((tree.lookup resolved).map fun node => node.attributes.mode).getD 0
  rejectIf (mode &&& 0o111 = 0) (invalidTarget executable "command is not executable")

/-- The inner targets of `--standard-mounts` that are checked. -/
def resolvedStandardTargets (host : Host) (tree : Tree) (rootfs : Bytes) :
    Bool → Except RuntimeError (List Bytes)
  | false => .ok []
  | true => do
    let targets ← [lit "/proc", lit "/dev", lit "/sys", lit "/tmp", lit "/run"].mapM
      (resolveInnerTarget host tree rootfs)
    let etc ← resolveTarget host tree rootfs (lit "/etc")
    let _ ← innerPath rootfs etc (lit "/etc")
    let resolvConf ← innerPath rootfs (push etc (lit "resolv.conf")) (lit "/etc/resolv.conf")
    let hosts ← innerPath rootfs (push etc (lit "hosts")) (lit "/etc/hosts")
    .ok (targets ++ [resolvConf, hosts])

/-- The list that `validate_resolved_mount_targets` checks. -/
def resolvedMountTargets (host : Host) (tree : Tree) (rootfs : Bytes) (config : Config) :
    Except RuntimeError (List Bytes) := do
  let standard ← resolvedStandardTargets host tree rootfs config.standardMounts
  let disk ← config.diskMounts.mapM (resolveInnerTarget host tree rootfs)
  let binds ← config.binds.mapM fun bind => resolveInnerTarget host tree rootfs bind.target
  let tmpfs ← config.tmpfs.mapM (resolveInnerTarget host tree rootfs)
  .ok (standard ++ disk ++ binds ++ tmpfs)

/-- `validate_resolved_mount_targets` (`linux.rs:670-702`). -/
def validateResolvedMountTargets (host : Host) (tree : Tree) (rootfs : Bytes) (config : Config) :
    Except RuntimeError Unit := do
  let targets ← resolvedMountTargets host tree rootfs config
  (validateTargetPaths [] targets).mapError fun _ =>
    .operation (lit "resolved_mount_targets_invalid") none

/-! ### Disk mounts -/

/-- `ensure_private_directory` (`linux.rs:536-551`) at the overlay base. -/
def ensurePrivate (host : Host) (path : Bytes) (operation : String) :
    Except RuntimeError Unit := do
  attempt host operation path
  rejectIf (host.occupied path = true)
    (invalidTarget path "overlay directory is not a real directory")

/-- One round of `prepare_disk_binds`. -/
def prepareDiskBind (host : Host) (sha256 : Bytes → Bytes) (rootfs lower : Bytes)
    (overlayBase : Position) (overlayId target : Bytes) : Preparation PreparedBind := do
  let source := absolute (diskMountSource sha256 overlayBase overlayId lower target)
  reading fun _ => ensurePrivate host source "disk_mount_source_create_failed"
  let bind : Bind := ⟨source, target, false⟩
  ensureBindTarget host rootfs bind
  reading fun tree => prepareBind host tree rootfs bind

/-- `prepare_disk_binds` (`linux.rs:830-859`). -/
def prepareDiskBinds (host : Host) (sha256 : Bytes → Bytes) (rootfs lower : Bytes)
    (overlayBase : Position) (overlayId : Bytes) (targets : List Bytes) :
    Preparation (List PreparedBind) :=
  if targets = [] then pure []
  else do
    reading fun _ =>
      ensurePrivate host (absolute (diskMountBase overlayBase)) "disk_mount_base_create_failed"
    targets.mapM (prepareDiskBind host sha256 rootfs lower overlayBase overlayId)

/-! ### All of it -/

/-- `run` (`linux.rs:96-115`) up to the first bind mount: the operations it applies. -/
def prepareOperations (host : Host) (sha256 : Bytes → Bytes) (rootfs lower : Bytes)
    (overlayBase : Position) (config : Config) :
    EStateM (Failure RuntimeError) Tree (List MountOperation) := do
  EStateM.adaptExcept .error (prepareBindTargets host rootfs config.binds)
  EStateM.adaptExcept .error
    (if config.standardMounts then ensureBindTarget host rootfs hostCgroupBind else pure ())
  let overlayId ← reading fun _ =>
    if config.diskMounts = [] then .ok [] else expect config.overlayId
  let diskBinds ← EStateM.adaptExcept .error
    (prepareDiskBinds host sha256 rootfs lower overlayBase overlayId config.diskMounts)
  EStateM.adaptExcept .error
    (reading fun tree => prepareWorkdir host tree rootfs config.workdir)
  let executable ← reading fun _ => expect config.command[0]?
  EStateM.adaptExcept .error
    (reading fun tree => prepareExecutable host tree rootfs executable)
  EStateM.adaptExcept .error
    (reading fun tree => validateResolvedMountTargets host tree rootfs config)
  let operations ← EStateM.adaptExcept .error
    (reading fun tree => prepareMounts host tree rootfs config)
  pure (operations ++ diskBinds.map .bind)

end Sandcamp.Sandrun
