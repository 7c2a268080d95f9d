import Sandcamp.Sandrun.OverlayOptions
import Sandcamp.Sandrun.Syscalls

/-!
# sandrun, call by call (linux.rs:70-1433)

The functions of `linux.rs` as threads of system calls, whatever the answers are: nothing is
supposed of the files, which anybody may change between two calls.
-/

namespace Sandcamp.Sandrun.Linux
open Foundations Foundations.UnixPath

/-! ### Resolving paths -/

/-- `prepare_rootfs` (`linux.rs:138-149`). -/
def prepareRootfs (path : Bytes) : Linux Bytes := do
  let rootfs ← canonicalize path "rootfs_resolve_failed"
  let found ← metadata rootfs "rootfs_stat_failed"
  check (!pathEq rootfs (lit "/") && found.fileType = .directory) (.invalidRootfs rootfs)
  pure rootfs

/-- The inner loop of `resolve_target`: the first link, the path it stands in, and the names
behind it. -/
def findLink (physical innerParent : Bytes) :
    List Bytes → Linux (Option (Bytes × Bytes × List Bytes))
  | [] => pure none
  | component :: rest => do
    let physical := push physical component
    let found ← symlinkMetadata physical "mount_target_resolve_failed"
    if found.fileType = .symlink then pure (some (physical, innerParent, rest))
    else findLink physical (push innerParent component) rest

/-- The loop of `resolve_target`, with the number of links that may still be followed. -/
def resolveFrom (rootfs target : Bytes) (left : ℕ) (path : Bytes) : Linux Bytes := do
  match ← findLink rootfs (lit "/") (names path) with
  | none => pure ((names path).foldl push rootfs)
  | some (physical, innerParent, rest) =>
    match left with
    | 0 => refuse (invalidTarget target "target contains too many symlinks")
    | left + 1 => do
      let link ← syscall (.readLink physical)
      let link ← orRefuse link (failed "mount_target_readlink_failed" physical)
      let next := if isAbsolute link then link else push innerParent link
      let next ← orRefuse (normalizeInnerPath (rest.foldl push next))
        (invalidTarget target "target escapes rootfs through a symlink")
      resolveFrom rootfs target left next

/-- `resolve_target` (`linux.rs:1101-1156`). -/
def resolveTarget (rootfs target : Bytes) : Linux Bytes := do
  let path ← orRefuse (normalizeInnerPath target) (invalidTarget target "target escapes rootfs")
  resolveFrom rootfs target 40 path

/-- `resolve_inner_target` (`linux.rs:704-707`). -/
def resolveInnerTarget (rootfs target : Bytes) : Linux Bytes := do
  let resolved ← resolveTarget rootfs target
  ofExcept (innerPath rootfs resolved target)

/-- `resolve_directory` (`linux.rs:1081-1099`). -/
def resolveDirectory (rootfs target : Bytes) : Linux Bytes := do
  let resolved ← resolveTarget rootfs target
  let found ← metadata resolved "mount_target_stat_failed"
  check (found.fileType = .directory) (invalidTarget target "mount target is not a directory")
  pure resolved

/-! ### The identity of the command -/

/-- `resolve_user` (`linux.rs:151-184`). -/
def resolveUser (rootfs user : Bytes) : Linux UserIdentity := do
  let passwd ← resolveTarget rootfs (lit "/etc/passwd")
  let found ← metadata passwd "passwd_stat_failed"
  check (found.fileType = .regular) (passwdEntryError 0 "/etc/passwd is not a regular file")
  check (found.len ≤ maxPasswdBytes) (failed "passwd_too_large" passwd)
  let contents ← syscall (.readFile passwd (maxPasswdBytes + 1))
  let contents ← orRefuse contents (failed "passwd_read_failed" passwd)
  check (contents.length ≤ maxPasswdBytes) (failed "passwd_too_large" passwd)
  check (Utf8.valid contents) (passwdEntryError 0 "/etc/passwd is not UTF-8")
  ofExcept (parsePasswd contents user)

/-- The `match` of `run` over the configured user (`linux.rs:72-88`). -/
def resolveIdentity (rootfs : Bytes) : Option ProcessUser → Linux (Option UserIdentity)
  | some (.named user) => do
    let identity ← resolveUser rootfs user
    pure (some identity)
  | some (.numeric uid gid) => do
    check (uid.toNat ≠ 2 ^ 32 - 1 && gid.toNat ≠ 2 ^ 32 - 1) (.invalidNumericUser uid gid)
    pure (some ⟨uid, gid⟩)
  | none => pure none

def credential (request : CredentialCall) : Linux Unit := do
  let accepted ← syscall (.credential request)
  check accepted (Switching.operationFailed request)

/-- `apply_identity` (`linux.rs:226-303`). -/
def applyIdentity (identity : UserIdentity) : Linux Unit := do
  onlyIf (identity.uid ≠ 0) (credential .clearAmbient)
  credential (.setGroups [])
  credential (.setResGid identity.gid identity.gid identity.gid)
  credential (.setResUid identity.uid identity.uid identity.uid)
  onlyIf (identity.uid ≠ 0) do
    credential (.capSet 0 0 0)
    credential .setNoNewPrivs
  let (uid, euid, gid, egid) ← syscall .ids
  check (uid = identity.uid && euid = identity.uid && gid = identity.gid && egid = identity.gid)
    (.operation (lit "identity_verification_failed") none)

/-! ### The sources of the binds -/

/-- `create_directory` (`linux.rs:1021-1038`). -/
def createDirectory (path : Bytes) (createOperation chmodOperation : String) : Linux Unit := do
  match ← syscall (.mkdir path createdDirectoryMode) with
  | .created => do
    let changed ← syscall (.setPermissions path createdDirectoryMode)
    check changed (failed chmodOperation path)
  | .alreadyExists => pure ()
  | .failed => refuse (failed createOperation path)

/-- One name of `ensure_bind_source_directory`. -/
def enterSourceDirectory (current : Bytes) : Linux Unit := do
  match ← lookUp current "bind_source_stat_failed" with
  | some found =>
    if found.fileType = .symlink then do
      let behind ← metadata current "bind_source_stat_failed"
      check (behind.fileType = .directory) (failed "bind_source_create_failed" current)
    else check (found.fileType = .directory) (failed "bind_source_create_failed" current)
  | none => do
    createDirectory current "bind_source_create_failed" "bind_source_chmod_failed"
    let found ← symlinkMetadata current "bind_source_stat_failed"
    check (found.fileType = .directory) (failed "bind_source_create_failed" current)

/-- The loop of `ensure_bind_source_directory` (`linux.rs:753-828`). -/
def enterSourceDirectories (source current : Bytes) : List Component → Linux Unit
  | [] => pure ()
  | .rootDir :: rest => enterSourceDirectories source current rest
  | .normal name :: rest => do
    let current := push current name
    enterSourceDirectory current
    enterSourceDirectories source current rest
  | _ => refuse (failed "bind_source_create_failed" source)

/-- `ensure_bind_source_directory` (`linux.rs:753-828`). -/
def ensureBindSourceDirectory (source : Bytes) : Linux Unit := do
  enterSourceDirectories source (lit "/") (components source)
  let _ ← canonicalize source "bind_source_resolve_failed"
  pure ()

/-- One round of `prepare_bind_sources`. -/
def prepareBindSource (bind : Bind) : Linux Unit := do
  match ← syscall (.canonicalize bind.source) with
  | .ok _ => pure ()
  | .error .notFound => ensureBindSourceDirectory bind.source
  | .error .other => refuse (failed "bind_source_resolve_failed" bind.source)

/-- `prepare_bind_sources` (`linux.rs:733-751`). -/
def prepareBindSources (binds : List Bind) : Linux Unit := Thread.each prepareBindSource binds

/-! ### The overlay -/

/-- `unshare_mount_namespace` (`linux.rs:1178-1188`). -/
def unshareMountNamespace : Linux Unit := do
  let unshared ← syscall .unshare
  check unshared (.operation (lit "mount_namespace_unshare_failed") none)

/-- `make_mounts_private` (`linux.rs:1190-1199`). -/
def makeMountsPrivate : Linux Unit :=
  mountRaw none (lit "/") none { MountFlags.none with msRec := true, msPrivate := true } none
    "mount_propagation_private_failed"

/-- `ensure_private_directory` (`linux.rs:536-551`). -/
def ensurePrivateDirectory (path : Bytes) (operation : String) : Linux Unit := do
  let made ← syscall (.mkdirAll path 0o700)
  check made (failed operation path)
  let found ← symlinkMetadata path operation
  check (found.fileType = .directory)
    (invalidTarget path "overlay directory is not a real directory")

def overlayBase : Bytes := lit "/var/lib/sandcamp/overlay"

def overlayDeviceMount : Bytes := lit "/var/lib/sandcamp/overlay-device"

def overlayDeviceNamespace : Bytes := lit "sandcamp/overlay/v1"

/-- `prepare_overlay_base` (`linux.rs:305-335`). -/
def prepareOverlayBase : Option Bytes → Linux Bytes
  | none => pure overlayBase
  | some device => do
    let device ← canonicalize device "overlay_device_resolve_failed"
    let found ← metadata device "overlay_device_stat_failed"
    check (found.fileType = .blockDevice)
      (invalidTarget device "overlay device is not a block device")
    ensurePrivateDirectory overlayDeviceMount "overlay_device_mountpoint_create_failed"
    mountRaw (some device) overlayDeviceMount (some (lit "ext4")) MountFlags.none none
      "overlay_device_mount_failed"
    let base := push overlayDeviceMount overlayDeviceNamespace
    ensurePrivateDirectory base "overlay_base_create_failed"
    pure base

/-- `acquire_overlay_lock` (`linux.rs:455-485`). -/
def acquireOverlayLock (path : Bytes) : Linux Unit := do
  let opened ← syscall (.openLock path 0o600)
  check opened (failed "overlay_lock_open_failed" path)
  let locked ← syscall .flock
  check locked (failed "overlay_workspace_busy" path)
  let inherited ← syscall .inheritLock
  check inherited (failed "overlay_lock_inherit_failed" path)

/-- `ensure_identity` (`linux.rs:420-453`). -/
def ensureIdentity (path expected : Bytes) : Linux Unit := do
  match ← syscall (.createNew path 0o600) with
  | .created => do
    let written ← syscall (.writeAll path expected)
    check written (failed "overlay_identity_write_failed" path)
  | .alreadyExists => do
    let actual ← syscall (.read path)
    let actual ← orRefuse actual (failed "overlay_identity_read_failed" path)
    check (actual = expected) (failed "overlay_identity_mismatch" path)
  | .failed => refuse (failed "overlay_identity_create_failed" path)

def tryWorkspaces (base : Bytes) (pid nonce : ℕ) : List ℕ → Linux Bytes
  | [] => refuse (failed "overlay_workspace_create_failed" base)
  | attempt :: rest => do
    let workspace := push base (workspaceName pid nonce attempt)
    match ← syscall (.mkdir workspace 0o700) with
    | .created => pure workspace
    | .alreadyExists => tryWorkspaces base pid nonce rest
    | .failed => refuse (failed "overlay_workspace_create_failed" workspace)

/-- `create_overlay_workspace` (`linux.rs:553-581`). -/
def createOverlayWorkspace (base : Bytes) : Linux Bytes := do
  let (pid, nonce) ← syscall .instant
  tryWorkspaces base pid nonce (List.range 128)

/-- The upper, work and merged directories. -/
structure LayerPaths where
  upper : Bytes
  work : Bytes
  merged : Bytes

/-- `stable_overlay_paths` (`linux.rs:376-396`). -/
def stableOverlayPaths (sha256 : Bytes → Bytes) (base lower overlayId : Bytes) :
    Linux LayerPaths := do
  let identity := overlayIdentity overlayId lower
  let workspace := push base (hexLower (sha256 identity))
  ensurePrivateDirectory workspace "overlay_workspace_create_failed"
  acquireOverlayLock (push workspace (lit "lock"))
  ensureIdentity (push workspace (lit "identity")) identity
  let upper := push workspace (lit "upper")
  let work := push workspace (lit "work")
  let mergedBase := push workspace (lit "merged")
  ensurePrivateDirectory work "overlay_directory_create_failed"
  ensurePrivateDirectory mergedBase "overlay_directory_create_failed"
  let merged ← createOverlayWorkspace mergedBase
  pure ⟨upper, work, merged⟩

/-- The paths of a run without an overlay id (`linux.rs:350-357`). -/
def temporaryOverlayPaths (base : Bytes) : Linux LayerPaths := do
  let workspace ← createOverlayWorkspace base
  let upper := push workspace (lit "upper")
  let work := push workspace (lit "work")
  let merged := push workspace (lit "merged")
  ensurePrivateDirectory work "overlay_directory_create_failed"
  ensurePrivateDirectory merged "overlay_directory_create_failed"
  pure ⟨upper, work, merged⟩

/-- The directories of the overlay (`linux.rs:347-358`). -/
def overlayPaths (sha256 : Bytes → Bytes) (base lower : Bytes) : Option Bytes → Linux LayerPaths
  | some overlayId => stableOverlayPaths sha256 base lower overlayId
  | none => temporaryOverlayPaths base

/-- The owner and the mode of a new upper directory (`linux.rs:512-533`). -/
def copyRootMetadata (path lower : Bytes) : Linux Unit := do
  let found ← metadata lower "rootfs_stat_failed"
  cString path "overlay_upper_chown_failed" (some path)
  let owned ← syscall (.chown path found.uid found.gid)
  check owned (failed "overlay_upper_chown_failed" path)
  let changed ← syscall (.setPermissions path (found.mode &&& 0o7777))
  check changed (failed "overlay_upper_chmod_failed" path)

/-- `ensure_overlay_upper_directory` (`linux.rs:487-534`). -/
def ensureOverlayUpperDirectory (path lower : Bytes) : Linux Unit := do
  let creation ← syscall (.mkdir path 0o700)
  check (creation ≠ .failed) (failed "overlay_upper_create_failed" path)
  let found ← symlinkMetadata path "overlay_upper_stat_failed"
  check (found.fileType = .directory)
    (invalidTarget path "overlay upper is not a real directory")
  onlyIf (creation = .created) (copyRootMetadata path lower)

/-- `mount_overlay_rootfs` (`linux.rs:337-374`): the merged directory. -/
def mountOverlayRootfs (sha256 : Bytes → Bytes) (lower base : Bytes) (overlayId : Option Bytes) :
    Linux Bytes := do
  check (!(startsWith base lower || startsWith lower base)) (.invalidRootfs lower)
  ensurePrivateDirectory base "overlay_base_create_failed"
  let layers ← overlayPaths sha256 base lower overlayId
  ensureOverlayUpperDirectory layers.upper lower
  mountRaw (some (lit "overlay")) layers.merged (some (lit "overlay")) MountFlags.none
    (some (overlayOptions lower layers.upper layers.work)) "overlay_mount_failed"
  pure layers.merged

/-! ### The targets of the binds -/

/-- One name of `ensure_bind_target_directory`. -/
def enterDirectory (rootfs logical resolved name : Bytes) : Linux Bytes := do
  let candidate := push resolved name
  match ← lookUp candidate "bind_target_parent_stat_failed" with
  | some found =>
    if found.fileType = .symlink then do
      let resolved ← resolveTarget rootfs logical
      let behind ← metadata resolved "bind_target_parent_stat_failed"
      check (behind.fileType = .directory)
        (invalidTarget logical "bind target parent is not a directory")
      pure resolved
    else do
      check (found.fileType = .directory)
        (invalidTarget logical "bind target parent is not a directory")
      pure candidate
  | none => do
    createDirectory candidate "bind_target_parent_create_failed"
      "bind_target_parent_chmod_failed"
    let found ← symlinkMetadata candidate "bind_target_parent_stat_failed"
    check (found.fileType = .directory)
      (invalidTarget logical "bind target parent is not a real directory")
    pure candidate

/-- The loop of `ensure_bind_target_directory` (`linux.rs:947-1019`). -/
def ensureBindTargetDirectory (rootfs target logical resolved : Bytes) :
    List Component → Linux Bytes
  | [] => pure resolved
  | .rootDir :: rest => ensureBindTargetDirectory rootfs target logical resolved rest
  | .normal name :: rest => do
    let logical := push logical name
    let resolved ← enterDirectory rootfs logical resolved name
    ensureBindTargetDirectory rootfs target logical resolved rest
  | _ => refuse (invalidTarget target "bind target parent escapes rootfs")

/-- What `ensure_bind_target` makes for a source of this type, and its mode. -/
def createTarget (target path : Bytes) : FileType → Linux (Creation × ℕ)
  | .directory => do
    let creation ← syscall (.mkdir path createdDirectoryMode)
    pure (creation, createdDirectoryMode)
  | .regular => do
    let creation ← syscall (.createNew path createdFileMode)
    pure (creation, createdFileMode)
  | _ => refuse (invalidTarget target
      "missing bind target cannot be created for this source type")

/-- The missing entry that `ensure_bind_target` makes. -/
def createBindTarget (target path : Bytes) (source : FileType) : Linux Unit := do
  match ← createTarget target path source with
  | (.created, mode) => do
    let changed ← syscall (.setPermissions path mode)
    check changed (failed "bind_target_chmod_failed" path)
  | (.alreadyExists, _) => pure ()
  | (.failed, _) => refuse (failed "bind_target_create_failed" path)

/-- `ensure_bind_target` (`linux.rs:876-945`). -/
def ensureBindTarget (rootfs : Bytes) (bind : Bind) : Linux Unit := do
  let source ← canonicalize bind.source "bind_source_resolve_failed"
  let found ← metadata source "bind_source_stat_failed"
  let above ← orRefuse (parent bind.target)
    (invalidTarget bind.target "bind target has no parent")
  let directory ← ensureBindTargetDirectory rootfs (fromComponents above) (lit "/") rootfs above
  let name ← orRefuse (fileName bind.target)
    (invalidTarget bind.target "bind target has no file name")
  let path := push directory name
  match ← lookUp path "bind_target_stat_failed" with
  | some _ => pure ()
  | none => createBindTarget bind.target path found.fileType

/-- `prepare_bind_targets` (`linux.rs:869-874`). -/
def prepareBindTargets (rootfs : Bytes) (binds : List Bind) : Linux Unit :=
  Thread.each (ensureBindTarget rootfs) binds

/-! ### Mount operations -/

def isDir (found : Metadata) : Bool := found.fileType = .directory

def isFile (found : Metadata) : Bool := found.fileType = .regular

/-- `prepare_bind_with_recursion` (`linux.rs:1040-1067`). -/
def prepareBindWithRecursion (rootfs : Bytes) (bind : Bind) (recursive : Bool) :
    Linux PreparedBind := do
  let source ← canonicalize bind.source "bind_source_resolve_failed"
  let target ← resolveTarget rootfs bind.target
  let sourceMetadata ← metadata source "bind_source_stat_failed"
  let targetMetadata ← metadata target "bind_target_stat_failed"
  check (isDir sourceMetadata = isDir targetMetadata && isFile sourceMetadata = isFile targetMetadata)
    (.incompatibleBind source target)
  pure ⟨source, target, bind.readonly, recursive && isDir sourceMetadata⟩

/-- `prepare_bind` (`linux.rs:725-727`). -/
def prepareBind (rootfs : Bytes) (bind : Bind) : Linux PreparedBind :=
  prepareBindWithRecursion rootfs bind false

/-- `prepare_recursive_bind` (`linux.rs:729-731`). -/
def prepareRecursiveBind (rootfs : Bytes) (bind : Bind) : Linux PreparedBind :=
  prepareBindWithRecursion rootfs bind true

/-- `prepare_regular_source` (`linux.rs:1069-1079`). -/
def prepareRegularSource (path : Bytes) : Linux Bytes := do
  let source ← canonicalize path "bind_source_resolve_failed"
  let found ← metadata source "bind_source_stat_failed"
  check (isFile found) (invalidTarget path "bind source is not a regular file")
  pure source

/-- One round of `prepare_disk_binds`. -/
def prepareDiskBind (sha256 : Bytes → Bytes) (rootfs lower base overlayId target : Bytes) :
    Linux PreparedBind := do
  let source := push base (hexLower (sha256 (diskMountIdentity overlayId lower target)))
  ensurePrivateDirectory source "disk_mount_source_create_failed"
  let bind : Bind := ⟨source, target, false⟩
  ensureBindTarget rootfs bind
  prepareBind rootfs bind

/-- `prepare_disk_binds` (`linux.rs:830-859`), and its place in `run`. -/
def prepareDiskBinds (sha256 : Bytes → Bytes) (rootfs lower overlayBase : Bytes)
    (overlayId : Option Bytes) (targets : List Bytes) : Linux (List PreparedBind) :=
  if targets = [] then pure []
  else do
    let overlayId ← expect overlayId
    let base := push overlayBase (lit "disk-mounts")
    ensurePrivateDirectory base "disk_mount_base_create_failed"
    Thread.mapEach (prepareDiskBind sha256 rootfs lower base overlayId) targets

/-- The mounts of `--standard-mounts`. -/
def prepareStandardMounts (rootfs : Bytes) : Bool → Linux (List MountOperation)
  | false => pure []
  | true => do
    let proc ← resolveDirectory rootfs (lit "/proc")
    let dev ← prepareRecursiveBind rootfs ⟨lit "/dev", lit "/dev", false⟩
    let sys ← prepareBind rootfs ⟨lit "/sys", lit "/sys", true⟩
    let cgroup ← prepareRecursiveBind rootfs hostCgroupBind
    let tmp ← resolveDirectory rootfs (lit "/tmp")
    let run ← resolveDirectory rootfs (lit "/run")
    let etc ← resolveDirectory rootfs (lit "/etc")
    let resolvConf ← prepareRegularSource (lit "/etc/resolv.conf")
    let hosts ← prepareRegularSource (lit "/etc/hosts")
    pure [.proc proc, .bind dev, .bind sys, .bind cgroup, .tmpfs tmp 0o1777, .tmpfs run 0o755,
      .dnsFiles etc resolvConf hosts]

/-- `prepare_mounts` (`linux.rs:617-668`). -/
def prepareMounts (rootfs : Bytes) (config : Config) : Linux (List MountOperation) := do
  let standard ← prepareStandardMounts rootfs config.standardMounts
  let binds ← Thread.mapEach (prepareBind rootfs) config.binds
  let tmpfs ← Thread.mapEach (resolveDirectory rootfs) config.tmpfs
  pure (standard ++ binds.map .bind ++ tmpfs.map fun target => .tmpfs target 0o755)

/-! ### Checks before the mounts -/

/-- `prepare_workdir` (`linux.rs:583-595`). -/
def prepareWorkdir (rootfs workdir : Bytes) : Linux Unit := do
  let resolved ← resolveTarget rootfs workdir
  let found ← metadata resolved "workdir_stat_failed"
  check (isDir found) (invalidTarget workdir "workdir is not a directory")

/-- `prepare_executable` (`linux.rs:597-615`). -/
def prepareExecutable (rootfs executable : Bytes) : Linux Unit := do
  let resolved ← resolveTarget rootfs executable
  let found ← metadata resolved "executable_stat_failed"
  check (isFile found) (invalidTarget executable "command is not a regular file")
  check (found.mode &&& 0o111 ≠ 0) (invalidTarget executable "command is not executable")

/-- The inner targets of `--standard-mounts` that are checked. -/
def resolvedStandardTargets (rootfs : Bytes) : Bool → Linux (List Bytes)
  | false => pure []
  | true => do
    let targets ← Thread.mapEach (resolveInnerTarget rootfs)
      [lit "/proc", lit "/dev", lit "/sys", lit "/tmp", lit "/run"]
    let etc ← resolveTarget rootfs (lit "/etc")
    let _ ← ofExcept (innerPath rootfs etc (lit "/etc"))
    let resolvConf ← ofExcept
      (innerPath rootfs (push etc (lit "resolv.conf")) (lit "/etc/resolv.conf"))
    let hosts ← ofExcept (innerPath rootfs (push etc (lit "hosts")) (lit "/etc/hosts"))
    pure (targets ++ [resolvConf, hosts])

/-- `validate_resolved_mount_targets` (`linux.rs:670-702`). -/
def validateResolvedMountTargets (rootfs : Bytes) (config : Config) : Linux Unit := do
  let standard ← resolvedStandardTargets rootfs config.standardMounts
  let disk ← Thread.mapEach (resolveInnerTarget rootfs) config.diskMounts
  let binds ← Thread.mapEach (fun bind : Bind => resolveInnerTarget rootfs bind.target) config.binds
  let tmpfs ← Thread.mapEach (resolveInnerTarget rootfs) config.tmpfs
  ofExcept ((validateTargetPaths [] (standard ++ disk ++ binds ++ tmpfs)).mapError fun _ =>
    .operation (lit "resolved_mount_targets_invalid") none)

/-! ### Applying the mounts -/

/-- `ensure_regular_mount_target` (`linux.rs:1259-1292`). -/
def ensureRegularMountTarget (target : Bytes) : Linux Unit := do
  let found ← lookUp target "dns_target_stat_failed"
  match found.map Metadata.fileType with
  | some .regular => pure ()
  | some .symlink => do
    let removed ← syscall (.removeFile target)
    check removed (failed "dns_target_replace_failed" target)
    create
  | some _ => refuse (invalidTarget target "DNS mount target is not a regular file")
  | none => create
where
  create : Linux Unit := do
    let creation ← syscall (.createNew target 0o644)
    check (creation = .created) (failed "dns_target_create_failed" target)

def remountReadonly : MountFlags :=
  { MountFlags.none with msBind := true, msRemount := true, msRdonly := true }

/-- `bind_file_readonly` (`linux.rs:1294-1312`). -/
def bindFileReadonly (source target : Bytes) : Linux Unit := do
  mountRaw (some source) target none { MountFlags.none with msBind := true } none
    "bind_mount_failed"
  mountRaw none target none remountReadonly none "bind_remount_readonly_failed"

/-- `OsStringBuffer::mode`: `{mode:o}`. -/
def modeOption (mode : ℕ) : Bytes :=
  lit "mode=" ++ (Nat.toDigits 8 mode).map fun digit => UInt8.ofNat digit.toNat

/-- `apply_mount` (`linux.rs:1201-1257`). -/
def applyMount : MountOperation → Linux Unit
  | .proc target => mountRaw (some (lit "proc")) target (some (lit "proc"))
      { MountFlags.none with msNosuid := true, msNodev := true, msNoexec := true } none
      "proc_mount_failed"
  | .bind bind => do
    mountRaw (some bind.source) bind.target none
      { MountFlags.none with msBind := true, msRec := bind.recursive } none "bind_mount_failed"
    onlyIf bind.readonly
      (mountRaw none bind.target none remountReadonly none "bind_remount_readonly_failed")
  | .tmpfs target mode => mountRaw (some (lit "tmpfs")) target (some (lit "tmpfs"))
      { MountFlags.none with msNosuid := true, msNodev := true } (some (modeOption mode))
      "tmpfs_mount_failed"
  | .dnsFiles target resolvConf hosts => do
    let resolvTarget := push target (lit "resolv.conf")
    let hostsTarget := push target (lit "hosts")
    ensureRegularMountTarget resolvTarget
    ensureRegularMountTarget hostsTarget
    bindFileReadonly resolvConf resolvTarget
    bindFileReadonly hosts hostsTarget

/-- `enter_rootfs` (`linux.rs:1343-1361`). -/
def enterRootfs (rootfs : Bytes) : Linux Unit := do
  changeDirectoryOuter rootfs "rootfs_chdir_failed"
  let pivoted ← syscall .pivotRoot
  check pivoted (failed "pivot_root_failed" rootfs)
  let detached ← syscall .detach
  check detached (.operation (lit "old_root_unmount_failed") none)
  changeDirectoryOuter (lit "/") "new_root_chdir_failed"

/-- `change_directory` (`linux.rs:1363-1365`). -/
def changeDirectory (path : Bytes) : Linux Unit :=
  changeDirectoryOuter path "workdir_chdir_failed"

/-! ### The run -/

/-- `run` in its own namespace up to the first mount on the rootfs (`linux.rs:93-117`): the merged
directory, and what is to be mounted there. -/
def prepare (sha256 : Bytes → Bytes) (config : Config) (lower : Bytes) :
    Linux (Bytes × List MountOperation) := do
  let overlayBase ← prepareOverlayBase config.overlayDevice
  let rootfs ← mountOverlayRootfs sha256 lower overlayBase config.overlayId
  prepareBindTargets rootfs config.binds
  onlyIf config.standardMounts (ensureBindTarget rootfs hostCgroupBind)
  let diskBinds ←
    prepareDiskBinds sha256 rootfs lower overlayBase config.overlayId config.diskMounts
  prepareWorkdir rootfs config.workdir
  let executable ← expect config.command[0]?
  prepareExecutable rootfs executable
  validateResolvedMountTargets rootfs config
  let operations ← prepareMounts rootfs config
  pure (rootfs, operations ++ diskBinds.map .bind)

/-- The end of `run` (`linux.rs:118-136`). -/
def launch (config : Config) (identity : Option UserIdentity) (rootfs : Bytes)
    (operations : List MountOperation) : Linux Unit := do
  Thread.each applyMount operations
  enterRootfs rootfs
  changeDirectory config.workdir
  Thread.each applyIdentity identity.toList
  let program ← expect config.command[0]?
  let replaced ← syscall (.exec program config.command.tail)
  check replaced (failed "exec_failed" program)

/-- `run` (`linux.rs:70-136`); it ends without an error where another program has taken its
place. -/
def run (sha256 : Bytes → Bytes) (config : Config) : Linux Unit := do
  let lower ← prepareRootfs config.rootfs
  let identity ← resolveIdentity lower config.user
  prepareBindSources config.binds
  unshareMountNamespace
  makeMountsPrivate
  let (rootfs, operations) ← prepare sha256 config lower
  launch config identity rootfs operations

end Sandcamp.Sandrun.Linux
