import Sandcamp.Foundations.Monitors
import Sandcamp.Switching
import Sandcamp.Sandrun.Mounts

/-!
# What sandrun asks of the kernel

One operation for every call of the standard library and of libc in `linux.rs`. Paths are texts;
what lies at them, and what else happens between two calls, is left to the answers.
-/

namespace Sandcamp.Sandrun
open Foundations

inductive FileType where
  | directory
  | regular
  | symlink
  | blockDevice
  | other
  deriving DecidableEq

structure Metadata where
  fileType : FileType
  len : ℕ
  uid : ℕ
  gid : ℕ
  mode : ℕ
  deriving DecidableEq

/-- The `io::ErrorKind` that are told apart. -/
inductive ErrorKind where
  | notFound
  | other
  deriving DecidableEq

/-- The flags of `mount`. -/
structure MountFlags where
  msBind : Bool
  msRec : Bool
  msRemount : Bool
  msRdonly : Bool
  msPrivate : Bool
  msShared : Bool
  msSlave : Bool
  msNosuid : Bool
  msNodev : Bool
  msNoexec : Bool
  deriving DecidableEq

def MountFlags.none : MountFlags :=
  ⟨false, false, false, false, false, false, false, false, false, false⟩

inductive Syscall where
  | canonicalize (path : Bytes)
  /-- Links are followed. -/
  | metadata (path : Bytes)
  | symlinkMetadata (path : Bytes)
  | readLink (path : Bytes)
  /-- `File::open`, `take(limit)` and `read_to_end`. -/
  | readFile (path : Bytes) (limit : ℕ)
  /-- `fs::read`. -/
  | read (path : Bytes)
  | mkdir (path : Bytes) (mode : ℕ)
  /-- `DirBuilder` with `recursive(true)`. -/
  | mkdirAll (path : Bytes) (mode : ℕ)
  /-- `OpenOptions` with `create_new(true)`. -/
  | createNew (path : Bytes) (mode : ℕ)
  | openLock (path : Bytes) (mode : ℕ)
  | flock
  /-- `fcntl` taking `FD_CLOEXEC` off the lock's descriptor. -/
  | inheritLock
  | writeAll (path contents : Bytes)
  | chown (path : Bytes) (uid gid : ℕ)
  | setPermissions (path : Bytes) (mode : ℕ)
  | removeFile (path : Bytes)
  /-- `getpid` and `SystemTime::now`. -/
  | instant
  /-- `unshare(CLONE_NEWNS)`. -/
  | unshare
  | mount (source : Option Bytes) (target : Bytes) (filesystem : Option Bytes) (flags : MountFlags)
      (data : Option Bytes)
  | chdir (path : Bytes)
  /-- `pivot_root(".", ".")`. -/
  | pivotRoot
  /-- `umount2(".", MNT_DETACH)`. -/
  | detach
  | credential (request : CredentialCall)
  /-- `getuid`, `geteuid`, `getgid` and `getegid`. -/
  | ids
  /-- Where it succeeds the program takes the place of this one. -/
  | exec (program : Bytes) (arguments : List Bytes)
  deriving DecidableEq

abbrev Reply : Syscall → Type
  | .canonicalize _ => Except ErrorKind Bytes
  | .metadata _ | .symlinkMetadata _ => Except ErrorKind Metadata
  | .readLink _ | .readFile .. | .read _ => Option Bytes
  | .mkdir .. | .createNew .. => Creation
  | .instant => ℕ × ℕ
  | .ids => UInt32 × UInt32 × UInt32 × UInt32
  | _ => Bool

/-- A call and its answer. -/
abbrev Event : Type := Σ o, Reply o

/-- A function of `linux.rs`. -/
abbrev Linux (α : Type) : Type := Thread Syscall Reply (Failure RuntimeError) α

def syscall (o : Syscall) : Linux (Reply o) := Thread.perform o

namespace Linux

/-! ### Errors -/

/-- `return Err(error)`. -/
def refuse {α : Type} (error : RuntimeError) : Linux α := .fail (.error error)

/-- `if !condition { return Err(error) }`. -/
def check (condition : Bool) (error : RuntimeError) : Linux Unit :=
  if condition then pure () else refuse error

/-- `value.ok_or(error)?`. -/
def orRefuse {α : Type} (value : Option α) (error : RuntimeError) : Linux α :=
  match value with
  | some a => pure a
  | none => refuse error

/-- `result?`. -/
def ofExcept {α : Type} : Except RuntimeError α → Linux α
  | .ok a => pure a
  | .error error => refuse error

/-- `option.expect(..)`, and an indexing that must be in range. -/
def expect {α : Type} : Option α → Linux α
  | some a => pure a
  | none => .fail .panic

/-- `if condition { action? }`. -/
def onlyIf (condition : Bool) (action : Linux Unit) : Linux Unit :=
  if condition then action else pure ()

def failed (operation : String) (path : Bytes) : RuntimeError :=
  .operation (lit operation) (some path)

/-! ### Calls with their errors -/

def canonicalize (path : Bytes) (operation : String) : Linux Bytes := do
  let reply ← syscall (.canonicalize path)
  orRefuse reply.toOption (failed operation path)

def metadata (path : Bytes) (operation : String) : Linux Metadata := do
  let reply ← syscall (.metadata path)
  orRefuse reply.toOption (failed operation path)

def symlinkMetadata (path : Bytes) (operation : String) : Linux Metadata := do
  let reply ← syscall (.symlinkMetadata path)
  orRefuse reply.toOption (failed operation path)

/-- `fs::symlink_metadata`, where `NotFound` is no error. -/
def lookUp (path : Bytes) (operation : String) : Linux (Option Metadata) := do
  match ← syscall (.symlinkMetadata path) with
  | .ok metadata => pure (some metadata)
  | .error .notFound => pure none
  | .error .other => refuse (failed operation path)

/-- `c_string` (`linux.rs:1421-1433`). -/
def cString (value : Bytes) (operation : String) (path : Option Bytes) : Linux Unit :=
  check (!value.contains 0) (.operation (lit operation) path)

/-- `c_string` on a value that may be missing. -/
def optionalCString (operation : String) : Option Bytes → Linux Unit
  | some value => cString value operation none
  | none => pure ()

/-- `mount_raw` (`linux.rs:1380-1419`). -/
def mountRaw (source : Option Bytes) (target : Bytes) (filesystem : Option Bytes)
    (flags : MountFlags) (data : Option Bytes) (operation : String) : Linux Unit := do
  optionalCString operation source
  cString target operation (some target)
  optionalCString operation filesystem
  optionalCString operation data
  let mounted ← syscall (.mount source target filesystem flags data)
  check mounted (failed operation target)

/-- `change_directory_outer` (`linux.rs:1367-1378`). -/
def changeDirectoryOuter (path : Bytes) (operation : String) : Linux Unit := do
  cString path operation (some path)
  let changed ← syscall (.chdir path)
  check changed (failed operation path)

end Linux

end Sandcamp.Sandrun
