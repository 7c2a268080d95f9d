import Sandcamp.Foundations.Interleaving
import Sandcamp.Sandrun.Args
import Sandcamp.Sandrun.Identity

/-!
# Writable layers on a shared disk (linux.rs:337-581, 830-850)

What a run of sandrun does to the overlay base, one system call at a time: it
takes the lock of a workspace, checks or records the identity, makes its
directories, mounts the overlay and executes the program. A position is the list
of names below the host's root. Everything of a run that is private to its mount
namespace is one operation, `isolate`.
-/

namespace Sandcamp.Sandrun
open Foundations Foundations.UnixPath

abbrev Position := List Bytes

/-- Owner, group and mode of a directory. -/
structure Attributes where
  uid : ℕ
  gid : ℕ
  mode : ℕ
  deriving DecidableEq

structure Layers where
  upper : Position
  work : Position
  merged : Position
  deriving DecidableEq

/-- How far a live run has got. No code reads it. -/
structure Progress where
  /-- The workspace of the lock that `acquire_overlay_lock` has returned. -/
  workspace : Option Position
  /-- `ensure_identity` has returned. -/
  identified : Bool
  /-- The directories of the overlay that `mount_overlay_rootfs` has mounted. -/
  layers : Option Layers
  /-- The disk-mount directories in use. -/
  sources : List Position
  executed : Bool
  deriving DecidableEq

def Progress.none : Progress := ⟨Option.none, false, Option.none, [], false⟩

/-- The disk and the kernel's bookkeeping, for runs named by `ι`. -/
structure Storage (ι : Type) where
  directories : Position → Option Attributes
  files : Position → Option Bytes
  /-- Who holds the exclusive `flock` of a lock file. -/
  locks : Position → Option ι
  /-- The lock file a run has open, and whether `exec` closes it. -/
  descriptors : ι → Option (Position × Bool)
  progress : ι → Progress

/-! ### System calls -/

inductive Note where
  | acquired (workspace : Position)
  | identified
  | source (source : Position)
  deriving DecidableEq

inductive Operation where
  /-- `DirBuilder` with `recursive(true)` and mode 0700. -/
  | mkdirAll (path : Position)
  /-- `DirBuilder` with mode 0700. -/
  | mkdir (path : Position)
  | symlinkMetadata (path : Position)
  | openLock (path : Position)
  /-- `flock(fd, LOCK_EX | LOCK_NB)`. -/
  | flock (path : Position)
  /-- `fcntl` taking `FD_CLOEXEC` off the lock's descriptor. -/
  | inheritLock
  /-- `OpenOptions` with `create_new(true)`. -/
  | createNew (path : Position)
  | write (path : Position) (bytes : Bytes)
  | read (path : Position)
  /-- `getpid` and `SystemTime::now`. -/
  | instant
  | rootfsMetadata (lower : Bytes)
  | chown (path : Position) (uid gid : ℕ)
  | chmod (path : Position) (mode : ℕ)
  | mountOverlay (lower : Bytes) (layers : Layers)
  | isolate
  | exec
  | note (note : Note)
  deriving DecidableEq

inductive Creation where
  | created
  | alreadyExists
  | failed
  deriving DecidableEq

abbrev Answer : Operation → Type
  | .mkdir _ | .createNew _ => Creation
  | .symlinkMetadata _ | .rootfsMetadata _ => Option Attributes
  | .write .. => Option ℕ
  | .read _ => Option Bytes
  | .instant => ℕ × ℕ
  | .note _ => Unit
  | _ => Bool

/-- How a system call ends: it may fail, and some have a number to settle. -/
structure Choice where
  fails : Bool
  first : ℕ
  second : ℕ
  deriving DecidableEq

def privateAttributes : Attributes := ⟨0, 0, 0o700⟩

variable {ι : Type} [DecidableEq ι]

def Progress.take (progress : Progress) : Note → Progress
  | .acquired workspace => { progress with workspace := some workspace }
  | .identified => { progress with identified := true }
  | .source source => { progress with sources := progress.sources ++ [source] }

/-- Change the progress of one run. -/
def Storage.advance (s : Storage ι) (who : ι) (f : Progress → Progress) : Storage ι :=
  { s with progress := Function.update s.progress who (f (s.progress who)) }

def Storage.setFile (s : Storage ι) (path : Position) (contents : Bytes) : Storage ι :=
  { s with files := Function.update s.files path (some contents) }

def Storage.setAttributes (s : Storage ι) (path : Position) (attributes : Attributes) :
    Storage ι :=
  { s with directories := Function.update s.directories path (some attributes) }

/-- The locks of a run are given back. -/
def Storage.unlock (s : Storage ι) (who : ι) : Storage ι :=
  { s with locks := fun path => if s.locks path = some who then none else s.locks path }

/-- The descriptors that `exec` closes, with the lock that goes with them. -/
def Storage.closeOnExec (s : Storage ι) (who : ι) : Storage ι :=
  match s.descriptors who with
  | some (_, true) => { s.unlock who with descriptors := Function.update s.descriptors who none }
  | _ => s

@[simp] theorem Storage.files_closeOnExec (s : Storage ι) (who : ι) :
    (s.closeOnExec who).files = s.files := by
  unfold Storage.closeOnExec
  split
  · rfl
  · rfl

@[simp] theorem Storage.directories_closeOnExec (s : Storage ι) (who : ι) :
    (s.closeOnExec who).directories = s.directories := by
  unfold Storage.closeOnExec
  split
  · rfl
  · rfl

@[simp] theorem Storage.progress_closeOnExec (s : Storage ι) (who : ι) :
    (s.closeOnExec who).progress = s.progress := by
  unfold Storage.closeOnExec
  split
  · rfl
  · rfl

/-- The end of a run, its program included: the kernel closes its descriptors. -/
def Storage.finish (who : ι) (s : Storage ι) : Storage ι :=
  { s.unlock who with
    descriptors := Function.update s.descriptors who none
    progress := Function.update s.progress who Progress.none }

def perform (attributes : Bytes → Attributes) (who : ι) :
    (o : Operation) → Choice → Storage ι → Answer o × Storage ι
  | .mkdirAll path, choice, s =>
    if choice.fails ∨ path.inits.any (fun p => (s.files p).isSome) then (false, s)
    else (true, { s with
      directories := fun p =>
        if p <+: path ∧ s.directories p = none then some privateAttributes else s.directories p })
  | .mkdir path, choice, s =>
    if choice.fails ∨ s.directories path.dropLast = none then (.failed, s)
    else if (s.directories path).isSome ∨ (s.files path).isSome then (.alreadyExists, s)
    else (.created, s.setAttributes path privateAttributes)
  | .symlinkMetadata path, choice, s => (if choice.fails then none else s.directories path, s)
  | .openLock path, choice, s =>
    if choice.fails then (false, s)
    else (true, { s.setFile path ((s.files path).getD []) with
      descriptors := Function.update s.descriptors who (some (path, true)) })
  | .flock path, choice, s =>
    if choice.fails then (false, s)
    else match s.locks path with
      | some holder => (decide (holder = who), s)
      | none => (true, { s with locks := Function.update s.locks path (some who) })
  | .inheritLock, choice, s =>
    if choice.fails then (false, s)
    else (true, { s with
      descriptors := Function.update s.descriptors who
        ((s.descriptors who).map fun (path, _) => (path, false)) })
  | .createNew path, choice, s =>
    if choice.fails then (.failed, s)
    else if (s.files path).isSome then (.alreadyExists, s)
    else (.created, s.setFile path [])
  | .write path bytes, choice, s =>
    if choice.fails then (none, s)
    else
      let count := min bytes.length (choice.first + 1)
      (some count, s.setFile path ((s.files path).getD [] ++ bytes.take count))
  | .read path, choice, s => (if choice.fails then none else s.files path, s)
  | .instant, choice, s => ((choice.first, choice.second), s)
  | .rootfsMetadata lower, choice, s =>
    (if choice.fails then none else some (attributes lower), s)
  | .chown path uid gid, choice, s =>
    if choice.fails then (false, s)
    else (true, match s.directories path with
      | some old => s.setAttributes path { old with uid := uid, gid := gid }
      | none => s)
  | .chmod path mode, choice, s =>
    if choice.fails then (false, s)
    else (true, match s.directories path with
      | some old => s.setAttributes path { old with mode := mode }
      | none => s)
  | .mountOverlay _ layers, choice, s =>
    if choice.fails then (false, s)
    else (true, s.advance who fun progress => { progress with layers := some layers })
  | .isolate, choice, s => (!choice.fails, s)
  | .exec, choice, s =>
    if choice.fails then (false, s)
    else (true, (s.closeOnExec who).advance who fun progress => { progress with executed := true })
  | .note note, _, s => ((), s.advance who fun progress => progress.take note)

/-- The machine all runs share; `attributes` says what the lower roots are like. -/
def machine (attributes : Bytes → Attributes) : Machine ι Choice (Storage ι) Operation Answer where
  perform := perform attributes
  finish := Storage.finish

/-! ### What an operation changes -/

/-- The storage a system call may leave behind. -/
inductive Effect (who : ι) (s : Storage ι) : Operation → Storage ι → Prop
  | nothing (o : Operation) : Effect who s o s
  | mkdirAll {path : Position} (made : Position → Option Attributes) :
      (∀ p, ¬p <+: path → made p = s.directories p) →
      Effect who s (.mkdirAll path) { s with directories := made }
  | mkdir (path : Position) (made : Attributes) :
      Effect who s (.mkdir path) (s.setAttributes path made)
  | chown (path : Position) (uid gid : ℕ) (changed : Attributes) :
      Effect who s (.chown path uid gid) (s.setAttributes path changed)
  | chmod (path : Position) (mode : ℕ) (changed : Attributes) :
      Effect who s (.chmod path mode) (s.setAttributes path changed)
  | openLock (path : Position) (contents : Bytes) :
      Effect who s (.openLock path) { s.setFile path contents with
        descriptors := Function.update s.descriptors who (some (path, true)) }
  | flock {path : Position} : s.locks path = none →
      Effect who s (.flock path) { s with locks := Function.update s.locks path (some who) }
  | inheritLock (kept : Option (Position × Bool)) :
      Effect who s .inheritLock { s with descriptors := Function.update s.descriptors who kept }
  | createNew (path : Position) : Effect who s (.createNew path) (s.setFile path [])
  | write (path : Position) (bytes contents : Bytes) :
      Effect who s (.write path bytes) (s.setFile path contents)
  | mountOverlay (lower : Bytes) (layers : Layers) :
      Effect who s (.mountOverlay lower layers)
        (s.advance who fun progress => { progress with layers := some layers })
  | exec : Effect who s .exec
      ((s.closeOnExec who).advance who fun progress => { progress with executed := true })
  | note (note : Note) : Effect who s (.note note) (s.advance who fun progress => progress.take note)

theorem effect_perform (attributes : Bytes → Attributes) (who : ι) (o : Operation) (choice : Choice)
    (s : Storage ι) : Effect who s o (perform attributes who o choice s).2 := by
  cases o with
  | mkdirAll path =>
    simp only [perform]
    split
    · exact .nothing _
    · apply Effect.mkdirAll
      intro p hp
      exact if_neg fun hboth => hp hboth.1
  | mkdir path =>
    simp only [perform]
    split
    · exact .nothing _
    · split
      · exact .nothing _
      · exact .mkdir path _
  | chown path uid gid =>
    simp only [perform]
    split
    · exact .nothing _
    · split
      · exact .chown path uid gid _
      · exact .nothing _
  | chmod path mode =>
    simp only [perform]
    split
    · exact .nothing _
    · split
      · exact .chmod path mode _
      · exact .nothing _
  | openLock path =>
    simp only [perform]
    split
    · exact .nothing _
    · exact .openLock path _
  | flock path =>
    simp only [perform]
    split
    · exact .nothing _
    · split
      · exact .nothing _
      · rename_i hfree
        exact .flock hfree
  | inheritLock =>
    simp only [perform]
    split
    · exact .nothing _
    · exact .inheritLock _
  | createNew path =>
    simp only [perform]
    split
    · exact .nothing _
    · split
      · exact .nothing _
      · exact .createNew path
  | write path bytes =>
    simp only [perform]
    split
    · exact .nothing _
    · exact .write path bytes _
  | mountOverlay lower layers =>
    simp only [perform]
    split
    · exact .nothing _
    · exact .mountOverlay lower layers
  | exec =>
    simp only [perform]
    split
    · exact .nothing _
    · exact .exec
  | note note => exact .note note
  | symlinkMetadata path | read path | instant | rootfsMetadata lower | isolate => exact .nothing _

/-! ### The source -/

abbrev Routine (α : Type) : Type := Thread Operation Answer RuntimeError α

def call (o : Operation) : Routine (Answer o) := Thread.perform o

/-- `if !condition { return Err(error) }`. -/
def require (condition : Bool) (error : RuntimeError) : Routine Unit :=
  if condition then pure () else .fail error

def failedOperation (operation : String) (path : Position) : RuntimeError :=
  .operation (lit operation) (some (absolute path))

/-- `ensure_private_directory` (`linux.rs:536-551`); the directories of the overlay
base are real ones. -/
def ensurePrivateDirectory (path : Position) (operation : String) : Routine Unit := do
  let made ← call (.mkdirAll path)
  require made (failedOperation operation path)
  let metadata ← call (.symlinkMetadata path)
  require metadata.isSome (failedOperation operation path)

/-- `acquire_overlay_lock` (`linux.rs:455-485`). -/
def acquireOverlayLock (path : Position) : Routine Unit := do
  let opened ← call (.openLock path)
  require opened (failedOperation "overlay_lock_open_failed" path)
  let locked ← call (.flock path)
  require locked (failedOperation "overlay_workspace_busy" path)
  let inherited ← call .inheritLock
  require inherited (failedOperation "overlay_lock_inherit_failed" path)

/-- `write_all`: every write takes at least one byte, so as many writes as there are
bytes are enough. -/
def writeAll (path : Position) : ℕ → Bytes → Routine Bool
  | 0, _ => pure true
  | fuel + 1, bytes =>
    if bytes = [] then pure true
    else do
      match ← call (.write path bytes) with
      | none => pure false
      | some count => writeAll path fuel (bytes.drop count)

/-- `ensure_identity` (`linux.rs:420-453`). -/
def ensureIdentity (path : Position) (expected : Bytes) : Routine Unit := do
  match ← call (.createNew path) with
  | .created => do
    let written ← writeAll path expected.length expected
    require written (failedOperation "overlay_identity_write_failed" path)
  | .alreadyExists => do
    match ← call (.read path) with
    | none => .fail (failedOperation "overlay_identity_read_failed" path)
    | some actual =>
      require (actual = expected) (failedOperation "overlay_identity_mismatch" path)
  | .failed => .fail (failedOperation "overlay_identity_create_failed" path)

/-- `{nonce:x}`. -/
def hexadecimal (n : ℕ) : Bytes := (Nat.toDigits 16 n).map fun digit => UInt8.ofNat digit.toNat

/-- `{pid}-{nonce:x}-{attempt}`. -/
def workspaceName (pid nonce attempt : ℕ) : Bytes :=
  decimal pid ++ lit "-" ++ hexadecimal nonce ++ lit "-" ++ decimal attempt

def tryWorkspaces (base : Position) (pid nonce : ℕ) : List ℕ → Routine Position
  | [] => .fail (failedOperation "overlay_workspace_create_failed" base)
  | attempt :: rest => do
    let workspace := base ++ [workspaceName pid nonce attempt]
    match ← call (.mkdir workspace) with
    | .created => pure workspace
    | .alreadyExists => tryWorkspaces base pid nonce rest
    | .failed => .fail (failedOperation "overlay_workspace_create_failed" workspace)

/-- `create_overlay_workspace` (`linux.rs:553-581`). -/
def createOverlayWorkspace (base : Position) : Routine Position := do
  let (pid, nonce) ← call .instant
  tryWorkspaces base pid nonce (List.range 128)

/-- The workspace of an overlay id and a rootfs. -/
def workspaceOf (sha256 : Bytes → Bytes) (base : Position) (overlayId lower : Bytes) : Position :=
  base ++ [hexLower (sha256 (overlayIdentity overlayId lower))]

/-- `stable_overlay_paths` (`linux.rs:376-396`); the lock is held from here on. -/
def stableOverlayPaths (sha256 : Bytes → Bytes) (base : Position) (lower overlayId : Bytes) :
    Routine Layers := do
  let workspace := workspaceOf sha256 base overlayId lower
  ensurePrivateDirectory workspace "overlay_workspace_create_failed"
  acquireOverlayLock (workspace ++ [lit "lock"])
  call (.note (.acquired workspace))
  ensureIdentity (workspace ++ [lit "identity"]) (overlayIdentity overlayId lower)
  call (.note .identified)
  ensurePrivateDirectory (workspace ++ [lit "work"]) "overlay_directory_create_failed"
  ensurePrivateDirectory (workspace ++ [lit "merged"]) "overlay_directory_create_failed"
  let merged ← createOverlayWorkspace (workspace ++ [lit "merged"])
  pure ⟨workspace ++ [lit "upper"], workspace ++ [lit "work"], merged⟩

/-- The paths of a run without an overlay id (`linux.rs:350-357`). -/
def temporaryOverlayPaths (base : Position) : Routine Layers := do
  let workspace ← createOverlayWorkspace base
  ensurePrivateDirectory (workspace ++ [lit "work"]) "overlay_directory_create_failed"
  ensurePrivateDirectory (workspace ++ [lit "merged"]) "overlay_directory_create_failed"
  pure ⟨workspace ++ [lit "upper"], workspace ++ [lit "work"], workspace ++ [lit "merged"]⟩

/-- The upper, work and merged directories (`linux.rs:347-358`). -/
def overlayPaths (sha256 : Bytes → Bytes) (base : Position) (lower : Bytes) :
    Option Bytes → Routine Layers
  | some overlayId => stableOverlayPaths sha256 base lower overlayId
  | none => temporaryOverlayPaths base

/-- The owner and the mode of a new upper directory (`linux.rs:512-533`). -/
def copyRootMetadata (path : Position) (lower : Bytes) : Routine Unit := do
  match ← call (.rootfsMetadata lower) with
  | none => .fail (.operation (lit "rootfs_stat_failed") (some lower))
  | some metadata => do
    let owned ← call (.chown path metadata.uid metadata.gid)
    require owned (failedOperation "overlay_upper_chown_failed" path)
    let changed ← call (.chmod path (metadata.mode &&& 0o7777))
    require changed (failedOperation "overlay_upper_chmod_failed" path)

/-- `ensure_overlay_upper_directory` (`linux.rs:487-534`). -/
def ensureOverlayUpperDirectory (path : Position) (lower : Bytes) : Routine Unit := do
  let creation ← call (.mkdir path)
  require (creation ≠ .failed) (failedOperation "overlay_upper_create_failed" path)
  let metadata ← call (.symlinkMetadata path)
  require metadata.isSome (failedOperation "overlay_upper_stat_failed" path)
  if creation = .created then copyRootMetadata path lower else pure ()

/-- `mount_overlay_rootfs` (`linux.rs:337-374`). -/
def mountOverlayRootfs (sha256 : Bytes → Bytes) (base : Position) (lower : Bytes)
    (overlayId : Option Bytes) : Routine Layers := do
  require (!(startsWith (absolute base) lower || startsWith lower (absolute base)))
    (.invalidRootfs lower)
  ensurePrivateDirectory base "overlay_base_create_failed"
  let layers ← overlayPaths sha256 base lower overlayId
  ensureOverlayUpperDirectory layers.upper lower
  let mounted ← call (.mountOverlay lower layers)
  require mounted (failedOperation "overlay_mount_failed" layers.merged)
  pure layers

/-- `overlay_base.join(DISK_MOUNT_NAMESPACE)`. -/
def diskMountBase (base : Position) : Position := base ++ [lit "disk-mounts"]

/-- The directory behind a disk mount (`linux.rs:843-847`). -/
def diskMountSource (sha256 : Bytes → Bytes) (base : Position) (overlayId lower target : Bytes) :
    Position :=
  diskMountBase base ++ [hexLower (sha256 (diskMountIdentity overlayId lower target))]

/-- The loop of `prepare_disk_binds` over the targets, as far as it concerns the disk. -/
def prepareDiskSources (sha256 : Bytes → Bytes) (base : Position) (overlayId lower : Bytes) :
    List Bytes → Routine Unit
  | [] => pure ()
  | target :: rest => do
    let source := diskMountSource sha256 base overlayId lower target
    ensurePrivateDirectory source "disk_mount_source_create_failed"
    call (.note (.source source))
    prepareDiskSources sha256 base overlayId lower rest

/-- `prepare_disk_binds` (`linux.rs:830-859`), as far as it concerns the disk. -/
def prepareDiskBase (sha256 : Bytes → Bytes) (base : Position) (overlayId lower : Bytes)
    (targets : List Bytes) : Routine Unit :=
  if targets = [] then pure ()
  else do
    ensurePrivateDirectory (diskMountBase base) "disk_mount_base_create_failed"
    prepareDiskSources sha256 base overlayId lower targets

/-- A run that carries an overlay id. Its strings fit into memory. -/
structure OverlayRun where
  overlayId : Bytes
  /-- The canonical rootfs. -/
  lower : Bytes
  diskMounts : List Bytes
  id_length : overlayId.length < 2 ^ 64
  lower_length : lower.length < 2 ^ 64
  target_length : ∀ target ∈ diskMounts, target.length < 2 ^ 64

/-- `run` (`linux.rs:71-136`) from `mount_overlay_rootfs` on. -/
def runOverlay (sha256 : Bytes → Bytes) (base : Position) (config : OverlayRun) : Routine Unit := do
  let _ ← mountOverlayRootfs sha256 base config.lower (some config.overlayId)
  prepareDiskBase sha256 base config.overlayId config.lower config.diskMounts
  let isolated ← call .isolate
  require isolated (.operation (lit "isolation") none)
  let executed ← call .exec
  require executed (.operation (lit "exec_failed") none)

end Sandcamp.Sandrun
