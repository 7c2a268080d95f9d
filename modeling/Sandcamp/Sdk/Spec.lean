import Sandcamp.Foundations.Checks
import Sandcamp.Foundations.CleanPath
import Std.Data.ExtTreeMap

/-!
# The declaration a Go caller writes, and its validation (spec.go)

Go strings are byte strings, `int` and `time.Duration` are 64-bit integers, and a
`map[string]string` is a sorted map; which of two invalid variables is reported is not
fixed in Go. `Validate` threads four accumulators through its loops, `Seen`. Every error
message is one constructor of `SpecError`, with the values it prints.
-/

namespace Sandcamp.Sdk
open Foundations Foundations.UnixPath

abbrev Environment := Std.ExtTreeMap Bytes Bytes compare

structure BindMount where
  source : Bytes
  target : Bytes
  readOnly : Bool
  deriving DecidableEq

structure ProcessUser where
  name : Bytes
  uid : UInt32
  gid : UInt32
  deriving DecidableEq

structure ReadinessProbe where
  path : Bytes
  port : Int64
  startupTimeout : Int64
  period : Int64
  timeout : Int64
  failureThreshold : Int64
  successThreshold : Int64
  deriving DecidableEq

/-- `ProcessKind` is a string: a caller can write any. -/
structure Process where
  name : Bytes
  kind : Bytes
  command : List Bytes
  env : Environment
  workDir : Bytes
  user : Option ProcessUser
  expose : List Int64
  overlayDevice : Bytes
  mounts : List BindMount
  diskMounts : List Bytes
  probe : Option ReadinessProbe
  timeout : Int64
  deriving DecidableEq

structure Spec where
  sidecars : List Process
  main : List Process
  deriving DecidableEq

def Spec.processes (spec : Spec) : List Process := spec.sidecars ++ spec.main

def service : Bytes := lit "service"
def runToCompletion : Bytes := lit "run-to-completion"

def controlPort : Int64 := 49982
def maxExposedPorts : ℕ := 8
def maxEncodedSpecBytes : ℕ := 120 * 1024
def agsLogSidecarPort : Int64 := 32000
def agsAIOSidecarPort : Int64 := 57890
def specEnvironment : Bytes := lit "SANDCAMP_SPEC"

/-- `time.Millisecond`, in nanoseconds. -/
def millisecond : Int64 := 1000000

def agsReadyTimeout : Int64 := 30000 * millisecond
def startupOverheadReserve : Int64 := 5000 * millisecond
def maxStartupBudget : Int64 := agsReadyTimeout - startupOverheadReserve
def defaultStartupTimeout : Int64 := 8000 * millisecond
def defaultProbePeriod : Int64 := 500 * millisecond
def defaultProbeTimeout : Int64 := 1000 * millisecond
def defaultFailureThreshold : Int64 := 3
def defaultSuccessThreshold : Int64 := 1

/-- `Duration.Milliseconds`. -/
def milliseconds (duration : Int64) : Int64 := duration / millisecond

/-! ### Errors -/

/-- What `resolveProbe` complains about (`spec.go:385-416`). -/
inductive ProbeError where
  | path
  | port
  | reservedPort (port : Int64)
  | duration (label : Bytes) (minimum maximum : Int64)
  | timeoutExceedsStartup
  | failureThreshold
  | successThreshold
  | thresholdLimit
  deriving DecidableEq

/-- The errors of `Spec.Validate`. `duplicateProcess`, `reservedPort`, `duplicatePort`,
`tooManyPorts` and `startupBudget` wrap sentinels of their own, the others wrap
`ErrInvalidSpec`. -/
inductive SpecError where
  | noProcesses
  | nameRequired (list : Bytes) (index : ℕ)
  | invalidName (name : Bytes)
  | duplicateProcess (name : Bytes)
  | command (process : Bytes)
  | commandNul (process : Bytes)
  | workDir (process : Bytes)
  | userName (process : Bytes)
  | userExclusive (process : Bytes)
  | userReserved (process : Bytes)
  | environment (process key : Bytes)
  | overridesSpec (process : Bytes)
  | exposes (process : Bytes) (port : Int64)
  | reservedPort (port : Int64)
  | duplicatePort (port : Int64)
  | kind (process kind : Bytes)
  | serviceTimeout (process : Bytes)
  | probe (process : Bytes) (error : ProbeError)
  | jobProbe (process : Bytes)
  | jobPorts (process : Bytes)
  | completionTimeout (process : Bytes)
  | mainOverlayDevice (process : Bytes)
  | mainMounts (process : Bytes)
  | mainDiskMounts (process : Bytes)
  | overlayDevice (process : Bytes)
  | diskMount (process : Bytes) (index : ℕ)
  | diskMountOverlap (process target previous : Bytes)
  | mountSource (process : Bytes) (index : ℕ)
  | mountTarget (process : Bytes) (index : ℕ)
  | mountOverlap (process target previous : Bytes)
  | noService
  | tooManyPorts (count : ℕ)
  | startupBudget (declared : Int64)
  deriving DecidableEq

/-! ### Strings -/

/-- A pattern `^[first][rest]{0,limit}$`, or `^[first][rest]*$` without a limit. -/
structure Pattern where
  first : UInt8 → Bool
  rest : UInt8 → Bool
  limit : Option ℕ

def Pattern.matchString (pattern : Pattern) : Bytes → Bool
  | [] => false
  | b :: bs =>
    pattern.first b && bs.all pattern.rest && pattern.limit.all fun limit => bs.length ≤ limit

/-- `[A-Za-z0-9_.-]`. -/
def wordByte (b : UInt8) : Bool := isAsciiAlphanumeric b || b == 95 || b == 46 || b == 45

def processNamePattern : Pattern := ⟨isAsciiAlphanumeric, wordByte, some 63⟩

def environmentPattern : Pattern :=
  ⟨fun b => isAsciiAlphabetic b || b == 95, fun b => isAsciiAlphanumeric b || b == 95, none⟩

def userNamePattern : Pattern := ⟨fun b => isAsciiAlphabetic b || b == 95, wordByte, some 63⟩

/-- `validAbsolutePathAllowRoot` (`spec.go:472-477`). -/
def validAbsolutePathAllowRoot (value : Bytes) : Bool :=
  value ≠ [] && hasRoot value && !value.contains nul && clean value == value

/-- `validAbsolutePath` (`spec.go:468-470`). -/
def validAbsolutePath (value : Bytes) : Bool :=
  value ≠ [slash] && validAbsolutePathAllowRoot value

def isHex (value : UInt8) : Bool :=
  (48 ≤ value && value ≤ 57) || (65 ≤ value && value ≤ 70) || (97 ≤ value && value ≤ 102)

def isHTTPOriginCharacter (value : UInt8) : Bool :=
  (65 ≤ value && value ≤ 90) || (97 ≤ value && value ≤ 122) || (48 ≤ value && value ≤ 57) ||
    (lit "-._~!$&'()*+,;=:@/?").contains value

/-- The loop of `validHTTPOriginForm` from `index` on, for at most `fuel` rounds. -/
def originFormLoop (value : Bytes) : ℕ → ℕ → Bool
  | 0, _ => true
  | fuel + 1, index =>
    match value[index]? with
    | none => true
    | some character =>
      if character = 37 then
        if value.length ≤ index + 2 ∨ isHex (value.getD (index + 1) 0) = false ∨
            isHex (value.getD (index + 2) 0) = false then false
        else originFormLoop value fuel (index + 3)
      else if isHTTPOriginCharacter character = false then false
      else originFormLoop value fuel (index + 1)

/-- `validHTTPOriginForm` (`spec.go:426-444`). A round moves `index` on, so the length of
the value is fuel enough. -/
def validHTTPOriginForm (value : Bytes) : Bool :=
  if hasRoot value then originFormLoop value value.length 0 else false

/-! ### Kinds, probes and timeouts -/

/-- `resolveProcessKind` (`spec.go:359-367`). -/
def resolveProcessKind (kind : Bytes) : Except Bytes Bytes :=
  if kind = [] then .ok service
  else if kind ≠ service ∧ kind ≠ runToCompletion then .error kind
  else .ok kind

/-- `validateProbeDuration` (`spec.go:461-466`). -/
def validateProbeDuration (label : Bytes) (value minimum maximum : Int64) :
    Except ProbeError Unit :=
  rejectIf (value < minimum ∨ maximum < value ∨ value % millisecond ≠ 0)
    (.duration label minimum maximum)

/-- The fields a caller left at zero (`spec.go:370-384`). -/
def ReadinessProbe.withDefaults (probe : ReadinessProbe) : ReadinessProbe :=
  { probe with
    startupTimeout := if probe.startupTimeout = 0 then defaultStartupTimeout
      else probe.startupTimeout
    period := if probe.period = 0 then defaultProbePeriod else probe.period
    timeout := if probe.timeout = 0 then defaultProbeTimeout else probe.timeout
    failureThreshold := if probe.failureThreshold = 0 then defaultFailureThreshold
      else probe.failureThreshold
    successThreshold := if probe.successThreshold = 0 then defaultSuccessThreshold
      else probe.successThreshold }

/-- The checks of `resolveProbe` (`spec.go:385-415`). -/
def validateProbe (probe : ReadinessProbe) : Except ProbeError Unit := do
  rejectIf (validHTTPOriginForm probe.path = false) .path
  rejectIf (probe.port < 1 ∨ 65535 < probe.port) .port
  rejectIf (probe.port = controlPort) (.reservedPort probe.port)
  validateProbeDuration (lit "startup timeout") probe.startupTimeout (1000 * millisecond)
    agsReadyTimeout
  validateProbeDuration (lit "period") probe.period (100 * millisecond) agsReadyTimeout
  validateProbeDuration (lit "timeout") probe.timeout (100 * millisecond) agsReadyTimeout
  rejectIf (probe.startupTimeout < probe.timeout) .timeoutExceedsStartup
  rejectIf (probe.failureThreshold < 1) .failureThreshold
  rejectIf (probe.successThreshold < 1) .successThreshold
  rejectIf (4294967295 < probe.failureThreshold.toUInt64 ∨
    4294967295 < probe.successThreshold.toUInt64) .thresholdLimit

/-- `resolveProbe` (`spec.go:369-417`). -/
def resolveProbe (probe : ReadinessProbe) : Except ProbeError ReadinessProbe := do
  let probe := probe.withDefaults
  validateProbe probe
  .ok probe

/-- `validateCompletionTimeout` (`spec.go:419-424`). -/
def validateCompletionTimeout (timeout : Int64) : Except Unit Unit :=
  rejectIf (timeout < 100 * millisecond ∨ agsReadyTimeout < timeout ∨ timeout % millisecond ≠ 0) ()

def reservedPort (port : Int64) : Bool :=
  port == controlPort || port == agsLogSidecarPort || port == agsAIOSidecarPort

/-! ### One process -/

/-- The accumulators of `Validate`. -/
structure Seen where
  names : List Bytes
  ports : List Int64
  startupBudget : Int64
  serviceCount : ℕ

/-- The user check of `validateProcess` (`spec.go:294-305`). -/
def validateUser (process : Bytes) (user : ProcessUser) : Except SpecError Unit :=
  if user.name ≠ [] then do
    rejectIf (userNamePattern.matchString user.name = false) (.userName process)
    rejectIf (user.uid ≠ 0 ∨ user.gid ≠ 0) (.userExclusive process)
  else rejectIf (user.uid = 0xFFFFFFFF ∨ user.gid = 0xFFFFFFFF) (.userReserved process)

/-- The environment loop of `validateProcess` (`spec.go:306-313`). -/
def validateEnv (process : Bytes) (env : Environment) : Except SpecError Unit :=
  forEach (fun (key, value) => do
      rejectIf (environmentPattern.matchString key = false ∨ nul ∈ value)
        (.environment process key)
      rejectIf (key = specEnvironment) (.overridesSpec process))
    env.toList

/-- One round of the port loop of `validateProcess` (`spec.go:314-325`). -/
def claimPort (process : Bytes) (seen : Seen) (port : Int64) : Except SpecError Seen := do
  rejectIf (port < 1 ∨ 65535 < port) (.exposes process port)
  rejectIf (reservedPort port = true) (.reservedPort port)
  rejectIf (port ∈ seen.ports) (.duplicatePort port)
  .ok { seen with ports := port :: seen.ports }

/-- The `Service` case (`spec.go:332-343`). -/
def validateService (process : Process) (seen : Seen) : Except SpecError Seen := do
  let seen := { seen with serviceCount := seen.serviceCount + 1 }
  rejectIf (process.timeout ≠ 0) (.serviceTimeout process.name)
  match process.probe with
  | none => .ok seen
  | some probe => do
    let resolved ← (resolveProbe probe).mapError (.probe process.name)
    .ok { seen with startupBudget := seen.startupBudget + resolved.startupTimeout }

/-- The `RunToCompletion` case (`spec.go:344-354`). -/
def validateJob (process : Process) (seen : Seen) : Except SpecError Seen := do
  rejectIf (process.probe.isSome) (.jobProbe process.name)
  rejectIf (process.expose ≠ []) (.jobPorts process.name)
  (validateCompletionTimeout process.timeout).mapError fun _ => .completionTimeout process.name
  .ok { seen with startupBudget := seen.startupBudget + process.timeout }

/-- The lifecycle rules (`spec.go:327-355`). -/
def validateKind (process : Process) (seen : Seen) : Except SpecError Seen := do
  let kind ← (resolveProcessKind process.kind).mapError (.kind process.name)
  if kind = service then validateService process seen
  else if kind = runToCompletion then validateJob process seen
  else .ok seen

/-- `len(process.Command) == 0 || !validAbsolutePath(process.Command[0])`, negated. -/
def startsWithPath : List Bytes → Bool
  | [] => false
  | executable :: _ => validAbsolutePath executable

/-- `validateProcess` (`spec.go:268-357`). -/
def validateProcess (process : Process) (seen : Seen) : Except SpecError Seen := do
  rejectIf (processNamePattern.matchString process.name = false) (.invalidName process.name)
  rejectIf (process.name ∈ seen.names) (.duplicateProcess process.name)
  let seen := { seen with names := process.name :: seen.names }
  rejectIf (startsWithPath process.command = false) (.command process.name)
  rejectIf (∃ argument ∈ process.command, nul ∈ argument) (.commandNul process.name)
  rejectIf (process.workDir ≠ [] ∧ validAbsolutePathAllowRoot process.workDir = false)
    (.workDir process.name)
  forEach (validateUser process.name) process.user.toList
  validateEnv process.name process.env
  let seen ← process.expose.foldlM (claimPort process.name) seen
  validateKind process seen

/-! ### Mounts of a sidecar -/

def standardSidecarMountTargets : List Bytes :=
  [lit "/proc", lit "/dev", lit "/sys", lit "/tmp", lit "/run", lit "/etc/resolv.conf",
    lit "/etc/hosts"]

/-- `mountTargetsOverlap` (`spec.go:262-266`). -/
def mountTargetsOverlap (first second : Bytes) : Bool :=
  first == second || (second ++ [slash]).isPrefixOf first || (first ++ [slash]).isPrefixOf second

/-- The loop over the earlier targets, and the append behind it. -/
def claimTarget (overlap : Bytes → Bytes → SpecError) (targets : List Bytes) (target : Bytes) :
    Except SpecError (List Bytes) := do
  forEach (fun previous =>
      rejectIf (mountTargetsOverlap previous target = true) (overlap target previous))
    targets
  .ok (targets ++ [target])

/-- One round of the loop over `DiskMounts` (`spec.go:207-228`). -/
def claimDiskMount (process : Bytes) (targets : List Bytes) (mount : Bytes × ℕ) :
    Except SpecError (List Bytes) := do
  rejectIf (validAbsolutePath mount.1 = false) (.diskMount process mount.2)
  claimTarget (.diskMountOverlap process) targets mount.1

/-- One round of the loop over `Mounts` (`spec.go:229-258`). -/
def claimMount (process : Bytes) (targets : List Bytes) (mount : BindMount × ℕ) :
    Except SpecError (List Bytes) := do
  rejectIf (validAbsolutePath mount.1.source = false) (.mountSource process mount.2)
  rejectIf (validAbsolutePath mount.1.target = false) (.mountTarget process mount.2)
  claimTarget (.mountOverlap process) targets mount.1.target

/-- `validateSidecarMounts` (`spec.go:197-260`). -/
def validateSidecarMounts (process : Process) : Except SpecError Unit := do
  rejectIf (process.overlayDevice ≠ [] ∧ validAbsolutePath process.overlayDevice = false)
    (.overlayDevice process.name)
  let targets ← process.diskMounts.zipIdx.foldlM (claimDiskMount process.name)
    standardSidecarMountTargets
  let _ ← process.mounts.zipIdx.foldlM (claimMount process.name) targets
  .ok ()

/-! ### The whole declaration -/

/-- One round of the sidecar loop (`spec.go:147-157`). -/
def validateSidecar (seen : Seen) (process : Process × ℕ) : Except SpecError Seen := do
  rejectIf (process.1.name = []) (.nameRequired (lit "sidecars") process.2)
  let seen ← validateProcess process.1 seen
  validateSidecarMounts process.1
  .ok seen

/-- One round of the main loop (`spec.go:158-174`). -/
def validateMain (seen : Seen) (process : Process × ℕ) : Except SpecError Seen := do
  rejectIf (process.1.name = []) (.nameRequired (lit "main") process.2)
  let seen ← validateProcess process.1 seen
  rejectIf (process.1.overlayDevice ≠ []) (.mainOverlayDevice process.1.name)
  rejectIf (process.1.mounts ≠ []) (.mainMounts process.1.name)
  rejectIf (process.1.diskMounts ≠ []) (.mainDiskMounts process.1.name)
  .ok seen

/-- `Spec.Validate` (`spec.go:136-185`). -/
def Spec.validate (spec : Spec) : Except SpecError Unit := do
  rejectIf (spec.sidecars.length + spec.main.length = 0) .noProcesses
  let seen ← spec.sidecars.zipIdx.foldlM validateSidecar ⟨[], [], 0, 0⟩
  let seen ← spec.main.zipIdx.foldlM validateMain seen
  rejectIf (seen.serviceCount = 0) .noService
  rejectIf (maxExposedPorts < seen.ports.length) (.tooManyPorts seen.ports.length)
  rejectIf (maxStartupBudget < seen.startupBudget) (.startupBudget seen.startupBudget)

end Sandcamp.Sdk
