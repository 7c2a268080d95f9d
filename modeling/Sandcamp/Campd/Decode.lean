import Sandcamp.Foundations.Json
import Sandcamp.Campd.Validate

/-!
# Decoding a declaration (spec.rs:27-157)

`decode` is base64, JSON and `validate` in turn. The two outside decoders are parameters,
`Decoders`. What the derived `Deserialize` implementations make of a JSON tree is
`decodeSpec`: unknown and repeated members are refused, a member with a default may be
missing, `null` is no value only where an `Option` is read, and a struct may also be the
array of its fields. All numbers of a declaration are integers, so a text with any other
number counts as no tree.
-/

namespace Sandcamp.Campd
open Foundations

/-- `base64` and `serde_json`, with the texts of their errors. -/
structure Decoders where
  decodeBase64 : Bytes → Except Bytes Bytes
  parseJson : Bytes → Except Bytes (Json Bytes)
  schemaError : Json Bytes → Bytes

/-! ### Scalars, lists and maps -/

def decodeString : Json Bytes → Option Bytes
  | .string s => some s
  | _ => none

def decodeBool : Json Bytes → Option Bool
  | .bool b => some b
  | _ => none

/-- A number below `bound`. -/
def decodeUnsigned (bound : ℕ) : Json Bytes → Option ℕ
  | .number n => if 0 ≤ n ∧ n < bound then some n.toNat else none
  | _ => none

def decodeU8 (value : Json Bytes) : Option UInt8 :=
  (decodeUnsigned (2 ^ 8) value).map UInt8.ofNat

def decodeU16 (value : Json Bytes) : Option UInt16 :=
  (decodeUnsigned (2 ^ 16) value).map UInt16.ofNat

def decodeU32 (value : Json Bytes) : Option UInt32 :=
  (decodeUnsigned (2 ^ 32) value).map UInt32.ofNat

def decodeU64 (value : Json Bytes) : Option UInt64 :=
  (decodeUnsigned (2 ^ 64) value).map UInt64.ofNat

variable {α : Type}

def decodeList (decode : Json Bytes → Option α) : Json Bytes → Option (List α)
  | .array items => items.mapM decode
  | _ => none

def decodeOption (decode : Json Bytes → Option α) : Json Bytes → Option (Option α)
  | .null => some none
  | value => (decode value).map some

def insertEntry (env : Env) (entry : Bytes × Json Bytes) : Option Env :=
  (decodeString entry.2).map fun value => env.insert entry.1 value

/-- `BTreeMap<String, String>`: a later entry replaces an earlier one of its key. -/
def decodeEnv : Json Bytes → Option Env
  | .object members => members.foldlM insertEntry ∅
  | _ => none

/-! ### Structs -/

/-- The fields of a struct that are given, by name or by position. -/
def structMembers (fields : List Bytes) : Json Bytes → Option (List (Bytes × Json Bytes))
  | .object members =>
    if (∀ m ∈ members, m.1 ∈ fields) ∧ (members.map Prod.fst).Nodup then some members
    else none
  | .array items => if items.length ≤ fields.length then some (fields.zip items) else none
  | _ => none

def required (members : List (Bytes × Json Bytes)) (field : Bytes)
    (decode : Json Bytes → Option α) : Option α :=
  (members.lookup field).bind decode

/-- A field with `#[serde(default)]`. -/
def defaulted (members : List (Bytes × Json Bytes)) (field : Bytes)
    (decode : Json Bytes → Option α) (default : α) : Option α :=
  match members.lookup field with
  | none => some default
  | some value => decode value

def kindOf (name : Bytes) : Option ProcessKind :=
  if name = lit "service" then some .service
  else if name = lit "run-to-completion" then some .runToCompletion
  else none

/-- A unit variant is its name, or the object `{name: null}`. -/
def decodeKind : Json Bytes → Option ProcessKind
  | .string name => kindOf name
  | .object [(name, .null)] => kindOf name
  | _ => none

def decodeNamedUser (value : Json Bytes) : Option NamedUser := do
  let members ← structMembers [lit "name"] value
  let name ← required members (lit "name") decodeString
  some ⟨name⟩

def decodeNumericUser (value : Json Bytes) : Option NumericUser := do
  let members ← structMembers [lit "uid", lit "gid"] value
  let uid ← required members (lit "uid") decodeU32
  let gid ← required members (lit "gid") decodeU32
  some ⟨uid, gid⟩

/-- An untagged enum: the first variant that fits. -/
def decodeUser (value : Json Bytes) : Option ProcessUser :=
  match decodeNamedUser value with
  | some user => some (.named user)
  | none => (decodeNumericUser value).map .numeric

def decodeBind (value : Json Bytes) : Option Bind := do
  let members ← structMembers [lit "source", lit "target", lit "readonly"] value
  let source ← required members (lit "source") decodeString
  let target ← required members (lit "target") decodeString
  let readonly ← defaulted members (lit "readonly") decodeBool false
  some ⟨source, target, readonly⟩

def probeFields : List Bytes :=
  [lit "path", lit "port", lit "startup_timeout_ms", lit "period_ms", lit "timeout_ms",
    lit "failure_threshold", lit "success_threshold"]

def decodeProbe (value : Json Bytes) : Option Probe := do
  let members ← structMembers probeFields value
  let path ← required members (lit "path") decodeString
  let port ← required members (lit "port") decodeU16
  let startupTimeoutMs ← required members (lit "startup_timeout_ms") decodeU64
  let periodMs ← required members (lit "period_ms") decodeU64
  let timeoutMs ← required members (lit "timeout_ms") decodeU64
  let failureThreshold ← required members (lit "failure_threshold") decodeU32
  let successThreshold ← required members (lit "success_threshold") decodeU32
  some { path, port, startupTimeoutMs, periodMs, timeoutMs, failureThreshold, successThreshold }

/-- The fields sidecars and main processes share. -/
def decodeCommon (members : List (Bytes × Json Bytes)) : Option CommonProcess := do
  let name ← required members (lit "name") decodeString
  let kind ← required members (lit "kind") decodeKind
  let command ← required members (lit "command") (decodeList decodeString)
  let env ← defaulted members (lit "env") decodeEnv ∅
  let workdir ← defaulted members (lit "workdir") decodeString []
  let readinessProbe ← defaulted members (lit "readiness_probe") (decodeOption decodeProbe) none
  let completionTimeoutMs ←
    defaulted members (lit "completion_timeout_ms") (decodeOption decodeU64) none
  some { name, kind, command, env, workdir, readinessProbe, completionTimeoutMs }

def sidecarFields : List Bytes :=
  [lit "name", lit "kind", lit "rootfs", lit "overlay_device", lit "standard_mounts",
    lit "disk_mounts", lit "binds", lit "command", lit "env", lit "workdir", lit "user",
    lit "readiness_probe", lit "completion_timeout_ms"]

def decodeSidecar (value : Json Bytes) : Option SidecarProcess := do
  let members ← structMembers sidecarFields value
  let common ← decodeCommon members
  let rootfs ← required members (lit "rootfs") decodeString
  let overlayDevice ← defaulted members (lit "overlay_device") (decodeOption decodeString) none
  let standardMounts ← defaulted members (lit "standard_mounts") decodeBool false
  let diskMounts ← defaulted members (lit "disk_mounts") (decodeList decodeString) []
  let binds ← defaulted members (lit "binds") (decodeList decodeBind) []
  let user ← defaulted members (lit "user") (decodeOption decodeUser) none
  some { common with rootfs, overlayDevice, standardMounts, diskMounts, binds, user }

def mainFields : List Bytes :=
  [lit "name", lit "kind", lit "command", lit "env", lit "workdir", lit "user",
    lit "readiness_probe", lit "completion_timeout_ms"]

def decodeMain (value : Json Bytes) : Option MainProcess := do
  let members ← structMembers mainFields value
  let common ← decodeCommon members
  let user ← defaulted members (lit "user") (decodeOption decodeUser) none
  some { common with user }

def decodeSpec (value : Json Bytes) : Option Spec := do
  let members ← structMembers [lit "version", lit "sidecars", lit "main"] value
  let version ← required members (lit "version") decodeU8
  let sidecars ← required members (lit "sidecars") (decodeList decodeSidecar)
  let main ← required members (lit "main") (decodeList decodeMain)
  some { version, sidecars, main }

/-- `decode` (`spec.rs:144-157`). -/
def decode (decoders : Decoders) (value : Bytes) : Except SpecError Spec := do
  rejectIf (maxEncodedBytes < value.length)
    ⟨lit "encoded declaration exceeds " ++ decimal maxEncodedBytes ++ lit " bytes"⟩
  let bytes ← (decoders.decodeBase64 value).mapError fun error =>
    ⟨lit "invalid base64: " ++ error⟩
  let json ← (decoders.parseJson bytes).mapError fun error => ⟨lit "invalid JSON: " ++ error⟩
  let spec ← okOr (decodeSpec json) ⟨lit "invalid JSON: " ++ decoders.schemaError json⟩
  validate spec
  .ok spec

end Sandcamp.Campd
