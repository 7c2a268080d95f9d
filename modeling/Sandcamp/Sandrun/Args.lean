import Sandcamp.Foundations.Checks
import Sandcamp.Foundations.UnixPath
import Sandcamp.Foundations.Utf8

/-!
# Command line of sandrun (lib.rs:28-536)

`parse_args` walks the argument vector with an index: an option reads its values
by moving the index, `--` ends the options, and the checks over the collected
values follow. An `OsString` is a byte string; `to_str` asks for UTF-8. Indexing
and `expect` are partial in the source and panic here as they do there.
-/

namespace Sandcamp.Sandrun
open Foundations Foundations.UnixPath

structure Bind where
  source : Bytes
  target : Bytes
  readonly : Bool
  deriving DecidableEq

inductive ProcessUser where
  | named (name : Bytes)
  | numeric (uid gid : UInt32)
  deriving DecidableEq

structure Config where
  rootfs : Bytes
  overlayDevice : Option Bytes
  overlayId : Option Bytes
  workdir : Bytes
  user : Option ProcessUser
  standardMounts : Bool
  diskMounts : List Bytes
  binds : List Bind
  tmpfs : List Bytes
  command : List Bytes
  deriving DecidableEq

inductive ConfigError where
  | missingOption (option : Bytes)
  | missingValue (option : Bytes)
  | missingSeparator
  | missingCommand
  | unknownOption (option : Bytes)
  | invalidOverlayId
  | invalidUserName (name : Bytes)
  | invalidUserId (option value : Bytes)
  | duplicateUserOption (option : Bytes)
  | conflictingUserOptions
  | incompleteNumericUser
  | diskMountRequiresOverlayDevice
  | invalidPath (field path : Bytes)
  | duplicateMountTarget (path : Bytes)
  | overlappingMountTargets (first second : Bytes)
  deriving DecidableEq

/-- `RuntimeError` (`lib.rs:163-188`); the operating system's own error is not kept. -/
inductive RuntimeError where
  | unsupportedPlatform
  | invalidRootfs (path : Bytes)
  | invalidMountTarget (target reason : Bytes)
  | incompatibleBind (source target : Bytes)
  | userNotFound (user : Bytes)
  | invalidNumericUser (uid gid : UInt32)
  | invalidPasswdEntry (line : ℕ) (reason : Bytes)
  | operation (operation : Bytes) (path : Option Bytes)
  deriving DecidableEq

def standardTargets : List Bytes :=
  [lit "/proc", lit "/dev", lit "/sys", lit "/tmp", lit "/run", lit "/etc/resolv.conf",
    lit "/etc/hosts"]

/-! ### Values of options -/

/-- `OsStr::to_str`. -/
def toStr (value : Bytes) : Option Bytes := if Utf8.valid value then some value else none

/-- `_`, `.`, `-` or an ASCII letter or digit. -/
def userNameByte (b : UInt8) : Bool :=
  isAsciiAlphanumeric b || b == 95 || b == 46 || b == 45

/-- `valid_user_name` (`lib.rs:437-452`). -/
def validUserName (value : Bytes) : Bool :=
  match toStr value with
  | none => false
  | some [] => false
  | some (first :: rest) =>
    (first :: rest).length ≤ 64 && (isAsciiAlphabetic first || first == 95) &&
      rest.all userNameByte

/-- `parse_user_id` (`lib.rs:425-435`). -/
def parseUserId (option value : Bytes) : Except ConfigError UInt32 :=
  let parsed := (toStr value).filter (fun value => value ≠ [] ∧ value.all isAsciiDigit = true)
    |>.bind (parseUnsigned (2 ^ 32))
    |>.filter (· ≠ 2 ^ 32 - 1)
  okOr (parsed.map UInt32.ofNat) (.invalidUserId option value)

/-- `path_value` (`lib.rs:454-464`): the index moved, and the value found there. -/
def pathValue (arguments : List Bytes) (index : ℕ) (option : Bytes) :
    Except (Failure ConfigError) (ℕ × Bytes) := do
  let index := index + 1
  let value ← okOr arguments[index]? (.error (.missingValue option))
  .ok (index, value)

/-! ### The option loop -/

/-- The local variables the loop fills. -/
structure Options where
  rootfs : Option Bytes
  overlayDevice : Option Bytes
  overlayId : Option Bytes
  workdir : Bytes
  userName : Option Bytes
  uid : Option UInt32
  gid : Option UInt32
  standardMounts : Bool
  diskMounts : List Bytes
  binds : List Bind
  tmpfs : List Bytes
  deriving DecidableEq

def Options.initial : Options where
  rootfs := none
  overlayDevice := none
  overlayId := none
  workdir := lit "/"
  userName := none
  uid := none
  gid := none
  standardMounts := false
  diskMounts := []
  binds := []
  tmpfs := []

/-- The arm of `--user` (`lib.rs:297-317`). -/
def parseUser (arguments : List Bytes) (index : ℕ) (options : Options) :
    Except (Failure ConfigError) (ℕ × Options) := do
  let (index, value) ← pathValue arguments index (lit "--user")
  rejectIf (validUserName value = false) (.error (.invalidUserName value))
  let value ← expect arguments[index]?
  let name ← expect (toStr value)
  rejectIf (options.userName.isSome) (.error (.duplicateUserOption (lit "--user")))
  .ok (index, { options with userName := some name })

/-- The arm of `--uid` and `--gid` (`lib.rs:318-338`). -/
def parseId (arguments : List Bytes) (index : ℕ) (options : Options) (option : Bytes) :
    Except (Failure ConfigError) (ℕ × Options) := do
  let (index, value) ← pathValue arguments index option
  let id ← (parseUserId option value).mapError .error
  if option = lit "--uid" then do
    rejectIf (options.uid.isSome) (.error (.duplicateUserOption option))
    .ok (index, { options with uid := some id })
  else do
    rejectIf (options.gid.isSome) (.error (.duplicateUserOption option))
    .ok (index, { options with gid := some id })

/-- The arm of `--bind` and `--ro-bind` (`lib.rs:345-358`). -/
def parseBind (arguments : List Bytes) (index : ℕ) (options : Options) (option : Bytes) :
    Except (Failure ConfigError) (ℕ × Options) := do
  let (index, source) ← pathValue arguments index option
  let (index, target) ← pathValue arguments index option
  let bind : Bind := ⟨source, target, option = lit "--ro-bind"⟩
  .ok (index, { options with binds := options.binds ++ [bind] })

/-- The `match` of the loop body: the option at `index` and its values. -/
def parseOption (arguments : List Bytes) (index : ℕ) (options : Options) (argument : Bytes) :
    Except (Failure ConfigError) (ℕ × Options) :=
  if argument = lit "--rootfs" then do
    let (index, value) ← pathValue arguments index (lit "--rootfs")
    .ok (index, { options with rootfs := some value })
  else if argument = lit "--overlay-device" then do
    let (index, value) ← pathValue arguments index (lit "--overlay-device")
    .ok (index, { options with overlayDevice := some value })
  else if argument = lit "--overlay-id" then do
    let (index, value) ← pathValue arguments index (lit "--overlay-id")
    .ok (index, { options with overlayId := some value })
  else if argument = lit "--workdir" then do
    let (index, value) ← pathValue arguments index (lit "--workdir")
    .ok (index, { options with workdir := value })
  else if argument = lit "--user" then parseUser arguments index options
  else if argument = lit "--uid" ∨ argument = lit "--gid" then
    parseId arguments index options argument
  else if argument = lit "--standard-mounts" then
    .ok (index, { options with standardMounts := true })
  else if argument = lit "--disk-mount" then do
    let (index, value) ← pathValue arguments index (lit "--disk-mount")
    .ok (index, { options with diskMounts := options.diskMounts ++ [value] })
  else if argument = lit "--bind" ∨ argument = lit "--ro-bind" then
    parseBind arguments index options argument
  else if argument = lit "--tmpfs" then do
    let (index, value) ← pathValue arguments index (lit "--tmpfs")
    .ok (index, { options with tmpfs := options.tmpfs ++ [value] })
  else .error (.error (.unknownOption argument))

/-- The `while` loop (`lib.rs:272-365`), with the separator it stops at. Every
round moves the index, so `fuel` rounds are enough when `fuel` arguments are left. -/
def parseOptions (arguments : List Bytes) :
    ℕ → ℕ → Options → Except (Failure ConfigError) (Options × Option ℕ)
  | 0, _, options => .ok (options, none)
  | fuel + 1, index, options =>
    if index < arguments.length then do
      let argument ← expect arguments[index]?
      if argument = lit "--" then .ok (options, some index)
      else do
        let (index, options) ← parseOption arguments index options argument
        parseOptions arguments fuel (index + 1) options
    else .ok (options, none)

/-! ### Checks over the collected values -/

/-- `clean_absolute` (`lib.rs:492-498`). -/
def cleanPath (path : Bytes) (allowRoot : Bool) : Bool :=
  if isAbsolute path = false ∨ (allowRoot = false ∧ pathEq path (lit "/") = true) then false
  else (components path).all Component.plain

/-- `validate_outer_path` and `validate_inner_path` (`lib.rs:466-490`). -/
def validatePath (field path : Bytes) (allowRoot : Bool) : Except (Failure ConfigError) Unit :=
  rejectIf (cleanPath path allowRoot = false) (.error (.invalidPath field path))

/-- `validate_target_paths` (`lib.rs:521-536`): every target against the ones before it. -/
def validateTargetPaths (previous : List Bytes) : List Bytes → Except ConfigError Unit
  | [] => .ok ()
  | target :: rest => do
    forEach (fun previous => do
        rejectIf (pathEq target previous = true) (ConfigError.duplicateMountTarget target)
        rejectIf (startsWith target previous = true ∨ startsWith previous target = true)
          (.overlappingMountTargets previous target))
      previous
    validateTargetPaths (previous ++ [target]) rest

/-- The list `validate_mount_targets` checks (`lib.rs:500-519`). -/
def mountTargets (standardMounts : Bool) (diskMounts : List Bytes) (binds : List Bind)
    (tmpfs : List Bytes) : List Bytes :=
  (if standardMounts then standardTargets else []) ++ diskMounts ++ binds.map (·.target) ++ tmpfs

/-- `validate_mount_targets` (`lib.rs:500-519`). -/
def validateMountTargets (standardMounts : Bool) (diskMounts : List Bytes) (binds : List Bind)
    (tmpfs : List Bytes) : Except ConfigError Unit :=
  validateTargetPaths [] (mountTargets standardMounts diskMounts binds tmpfs)

/-- The `match (user_name, uid, gid)` (`lib.rs:403-409`). -/
def combineUser : Option Bytes → Option UInt32 → Option UInt32 →
    Except ConfigError (Option ProcessUser)
  | some name, none, none => .ok (some (.named name))
  | some _, _, _ => .error .conflictingUserOptions
  | none, some uid, some gid => .ok (some (.numeric uid gid))
  | none, none, none => .ok none
  | none, _, _ => .error .incompleteNumericUser

/-- `parse_args` after the loop (`lib.rs:368-422`). -/
def finishArgs (options : Options) (command : List Bytes) :
    Except (Failure ConfigError) Config := do
  rejectIf (command = []) (.error .missingCommand)
  let rootfs ← okOr options.rootfs (.error (.missingOption (lit "--rootfs")))
  validatePath (lit "rootfs") rootfs false
  forEach (fun device => validatePath (lit "overlay device") device false)
    options.overlayDevice.toList
  forEach (fun id => rejectIf (id = [] ∨ 256 < List.length id) (.error .invalidOverlayId))
    options.overlayId.toList
  rejectIf (options.overlayDevice.isSome ∧ options.overlayId.isNone)
    (.error (.missingOption (lit "--overlay-id")))
  rejectIf (options.diskMounts ≠ [] ∧ options.overlayDevice.isNone)
    (.error .diskMountRequiresOverlayDevice)
  validatePath (lit "workdir") options.workdir true
  let executable ← expect command[0]?
  validatePath (lit "command") executable false
  forEach (fun target => validatePath (lit "disk mount target") target false) options.diskMounts
  forEach (fun (bind : Bind) => do
      validatePath (lit "bind source") bind.source false
      validatePath (lit "bind target") bind.target false)
    options.binds
  forEach (fun target => validatePath (lit "tmpfs target") target false) options.tmpfs
  (validateMountTargets options.standardMounts options.diskMounts options.binds
    options.tmpfs).mapError .error
  let user ← (combineUser options.userName options.uid options.gid).mapError .error
  .ok {
    rootfs := rootfs
    overlayDevice := options.overlayDevice
    overlayId := options.overlayId
    workdir := options.workdir
    user := user
    standardMounts := options.standardMounts
    diskMounts := options.diskMounts
    binds := options.binds
    tmpfs := options.tmpfs
    command := command }

/-- `parse_args` (`lib.rs:256-423`). -/
def parseArgs (arguments : List Bytes) : Except (Failure ConfigError) Config := do
  let (options, separator) ← parseOptions arguments arguments.length 0 Options.initial
  let separator ← okOr separator (.error .missingSeparator)
  let command ← sliceFrom arguments (separator + 1)
  finishArgs options command

end Sandcamp.Sandrun
