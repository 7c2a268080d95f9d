import Sandcamp.Foundations.Checks
import Sandcamp.Campd.Spec

/-!
# Admission of a declaration (spec.rs:159-510)

`validate` and everything it calls, check by check and with the messages of the
source. The accumulators `validate` threads through its two loops (the set of
names, the startup budget, the service count) are `Totals`; the growing list of
mount targets of one sidecar is threaded by `validateTargets`.
-/

namespace Sandcamp.Campd
open Foundations Foundations.UnixPath

/-! ### Lexical checks -/

/-- `_`, `.`, `-` or an ASCII letter or digit. -/
def nameByte (b : UInt8) : Bool :=
  isAsciiAlphanumeric b || b == 95 || b == 46 || b == 45

/-- `valid_name` (`spec.rs:474-482`). -/
def validName : Bytes → Bool
  | [] => false
  | first :: rest =>
    (first :: rest).length ≤ 64 && isAsciiAlphanumeric first && (first :: rest).all nameByte

/-- `valid_user_name` (`spec.rs:484-492`). -/
def validUserName : Bytes → Bool
  | [] => false
  | first :: rest =>
    (first :: rest).length ≤ 64 && (isAsciiAlphabetic first || first == 95) &&
      (first :: rest).all nameByte

/-- `valid_environment_name` (`spec.rs:494-498`). -/
def validEnvironmentName : Bytes → Bool
  | [] => false
  | first :: rest =>
    (isAsciiAlphabetic first || first == 95) &&
      rest.all fun b => isAsciiAlphanumeric b || b == 95

/-- `valid_path` (`spec.rs:500-510`). -/
def validPath (value : Bytes) (allowRoot : Bool) : Bool :=
  if value.contains nul then false
  else isAbsolute value && (allowRoot || !pathEq value [slash]) &&
    (components value).all Component.plain

/-- The unreserved and delimiter characters of an HTTP origin form. -/
def originPunctuation : Bytes := lit "-._~!$&'()*+,;=:@/?"

/-- The scanning loop of `valid_http_origin_form`, from the byte at `index` on. -/
def originFormFrom : Bytes → Bool
  | [] => true
  | character :: rest =>
    -- `%` must be followed by two hexadecimal digits, and skips them
    if character = 37 then
      match rest with
      | high :: low :: rest =>
        if isAsciiHexdigit high && isAsciiHexdigit low then originFormFrom rest else false
      | _ => false
    else if isAsciiAlphanumeric character || originPunctuation.contains character then
      originFormFrom rest
    else false

/-- `valid_http_origin_form` (`spec.rs:448-472`). -/
def validHttpOriginForm (value : Bytes) : Bool :=
  if value.head? = some slash then originFormFrom value else false

/-! ### One process -/

/-- The accumulators of `validate`: `names`, `startup_budget_ms`, `service_count`. -/
structure Totals where
  names : List Bytes
  startupBudgetMs : UInt64
  serviceCount : ℕ

/-- `u64::checked_add`. -/
def checkedAdd (a b : UInt64) : Option UInt64 :=
  if a.toNat + b.toNat < 2 ^ 64 then some (a + b) else none

/-- `add_startup_budget` (`spec.rs:400-405`). -/
def addStartupBudget (budget duration : UInt64) : Except SpecError UInt64 :=
  match checkedAdd budget duration with
  | some sum => .ok sum
  | none => .error ⟨lit "startup budget overflow"⟩

/-- The inclusive range test of the probe and job limits. -/
def withinLimits (minimum value : UInt64) : Bool :=
  minimum ≤ value && value ≤ agsReadyTimeoutMs

/-- `process {name} {complaint}`. -/
def processError (name : Bytes) (complaint : Bytes) : SpecError :=
  ⟨lit "process " ++ name ++ lit " " ++ complaint⟩

/-- `validate_probe` (`spec.rs:407-446`). -/
def validateProbe (name : Bytes) (probe : Probe) : Except SpecError Unit := do
  rejectIf (validHttpOriginForm probe.path = false)
    (processError name (lit "probe path is invalid"))
  rejectIf (probe.port = 0) (processError name (lit "probe port is invalid"))
  rejectIf (probe.port = controlPort)
    (processError name (lit "probe port is reserved by campd"))
  rejectIf (withinLimits 1000 probe.startupTimeoutMs = false)
    (processError name (lit "probe startup timeout is outside AGS limits"))
  forEach (fun (label, value) =>
      rejectIf (withinLimits 100 value = false)
        (processError name (lit "probe " ++ label ++ lit " is outside AGS limits")))
    [(lit "period", probe.periodMs), (lit "timeout", probe.timeoutMs)]
  rejectIf (probe.startupTimeoutMs < probe.timeoutMs)
    (processError name (lit "probe timeout exceeds startup timeout"))
  rejectIf (probe.failureThreshold = 0 ∨ probe.successThreshold = 0)
    (processError name (lit "probe thresholds must be positive"))

/-- The environment loop of `validate_common` (`spec.rs:352-363`). -/
def validateEnvironment (name : Bytes) (env : Env) : Except SpecError Unit :=
  forEach (fun (key, value) => do
      rejectIf (validEnvironmentName key = false ∨ nul ∈ value)
        (processError name (lit "has invalid environment variable " ++ key))
      rejectIf (key = specEnvironment)
        (processError name (lit "cannot override " ++ specEnvironment)))
    env.toList

/-- The `match kind` of `validate_common` (`spec.rs:365-397`). -/
def validateKind (process : CommonProcess) (totals : Totals) : Except SpecError Totals :=
  match process.kind with
  | .service => do
    let totals := { totals with serviceCount := totals.serviceCount + 1 }
    rejectIf (process.completionTimeoutMs.isSome)
      ⟨lit "service process " ++ process.name ++ lit " cannot set completion timeout"⟩
    match process.readinessProbe with
    | none => .ok totals
    | some probe => do
      validateProbe process.name probe
      let budget ← addStartupBudget totals.startupBudgetMs probe.startupTimeoutMs
      .ok { totals with startupBudgetMs := budget }
  | .runToCompletion => do
    rejectIf (process.readinessProbe.isSome)
      ⟨lit "run-to-completion process " ++ process.name ++ lit " cannot set a readiness probe"⟩
    match process.completionTimeoutMs with
    | none =>
      .error ⟨lit "run-to-completion process " ++ process.name ++
        lit " requires completion timeout"⟩
    | some timeout => do
      rejectIf (withinLimits 100 timeout = false)
        (processError process.name (lit "completion timeout is outside AGS limits"))
      let budget ← addStartupBudget totals.startupBudgetMs timeout
      .ok { totals with startupBudgetMs := budget }

/-- `command.is_empty() || !valid_path(&command[0], false)`, negated. -/
def validExecutable : List Bytes → Bool
  | [] => false
  | executable :: _ => validPath executable false

/-- `validate_common` (`spec.rs:317-398`). -/
def validateCommon (process : CommonProcess) (totals : Totals) : Except SpecError Totals := do
  let name := process.name
  rejectIf (validName name = false) (processError name (lit "has an invalid name"))
  rejectIf (name ∈ totals.names) (processError name (lit "is duplicated"))
  let totals := { totals with names := name :: totals.names }
  rejectIf (validExecutable process.command = false)
    (processError name (lit "executable must be a clean absolute path"))
  rejectIf (∃ value ∈ process.command, nul ∈ value)
    (processError name (lit "command contains NUL"))
  rejectIf (process.workdir ≠ [] ∧ validPath process.workdir true = false)
    (processError name (lit "workdir must be a clean absolute path"))
  validateEnvironment name process.env
  validateKind process totals

/-- `validate_user` (`spec.rs:302-314`). -/
def validateUser (processName : Bytes) : ProcessUser → Except SpecError Unit
  | .named user =>
    rejectIf (validUserName user.name = false)
      (processError processName (lit "user name is invalid"))
  | .numeric user =>
    rejectIf (user.uid = 0xFFFFFFFF ∨ user.gid = 0xFFFFFFFF)
      (processError processName (lit "user contains the reserved UID/GID value"))

/-! ### Sidecars, main processes and the whole declaration -/

/-- `sidecar {name} {complaint}`. -/
def sidecarError (name : Bytes) (complaint : Bytes) : SpecError :=
  ⟨lit "sidecar " ++ name ++ lit " " ++ complaint⟩

/-- The inner loop over the earlier targets, for a target of the given kind
(`disk mount` at `spec.rs:224-240`, `bind` at `spec.rs:251-267`). -/
def claimTarget (name what : Bytes) (targets : List Bytes) (target : Bytes) :
    Except SpecError (List Bytes) := do
  forEach (fun previous => do
      rejectIf (pathEq target previous = true)
        (sidecarError name (what ++ lit " target " ++ target ++ lit " is duplicated"))
      rejectIf (startsWith target previous = true ∨ startsWith previous target = true)
        (sidecarError name (what ++ lit " target " ++ target ++ lit " overlaps " ++ previous)))
    targets
  .ok (targets ++ [target])

/-- One round of the loop over `disk_mounts` (`spec.rs:216-242`). -/
def claimDiskMount (name : Bytes) (targets : List Bytes) (target : Bytes) :
    Except SpecError (List Bytes) := do
  rejectIf (validPath target false = false)
    (sidecarError name (lit "disk mount target must be a clean absolute path"))
  claimTarget name (lit "disk mount") targets target

/-- One round of the loop over `binds` (`spec.rs:243-268`). -/
def claimBind (name : Bytes) (targets : List Bytes) (bind : Bind) :
    Except SpecError (List Bytes) := do
  rejectIf (validPath bind.source false = false ∨ validPath bind.target false = false)
    (sidecarError name (lit "bind paths must be clean and absolute"))
  claimTarget name (lit "bind") targets bind.target

/-- The part of the sidecar loop after `validate_common` (`spec.rs:188-268`). -/
def validateSidecarFields (process : SidecarProcess) : Except SpecError Unit := do
  rejectIf (validPath process.rootfs false = false)
    (sidecarError process.name (lit "rootfs must be a clean absolute path"))
  forEach (fun device =>
      rejectIf (validPath device false = false)
        (sidecarError process.name (lit "overlay device must be a clean absolute path")))
    process.overlayDevice.toList
  forEach (validateUser process.name) process.user.toList
  let targets := if process.standardMounts then standardMountTargets else []
  let targets ← process.diskMounts.foldlM (claimDiskMount process.name) targets
  let _ ← process.binds.foldlM (claimBind process.name) targets
  .ok ()

/-- One round of the sidecar loop (`spec.rs:175-269`). -/
def validateSidecar (totals : Totals) (process : SidecarProcess) : Except SpecError Totals := do
  let totals ← validateCommon process.toCommonProcess totals
  validateSidecarFields process
  .ok totals

/-- One round of the main loop (`spec.rs:271-287`). -/
def validateMain (totals : Totals) (process : MainProcess) : Except SpecError Totals := do
  let totals ← validateCommon process.toCommonProcess totals
  forEach (validateUser process.name) process.user.toList
  .ok totals

/-- `validate` (`spec.rs:159-300`). -/
def validate (spec : Spec) : Except SpecError Unit := do
  rejectIf (spec.version ≠ legacyRuntimeSpecVersion ∧ spec.version ≠ runtimeSpecVersion)
    ⟨lit "unsupported declaration version " ++ decimal spec.version.toNat⟩
  rejectIf (spec.sidecars.length + spec.main.length = 0)
    ⟨lit "declaration has no processes"⟩
  let totals ← spec.sidecars.foldlM validateSidecar ⟨[], 0, 0⟩
  let totals ← spec.main.foldlM validateMain totals
  rejectIf (totals.serviceCount = 0)
    ⟨lit "declaration must contain at least one service"⟩
  rejectIf (maxStartupBudgetMs < totals.startupBudgetMs)
    ⟨lit "startup budget " ++ decimal totals.startupBudgetMs.toNat ++
      lit "ms exceeds the 25000ms limit reserved inside AGS's 30000ms deadline"⟩

end Sandcamp.Campd
