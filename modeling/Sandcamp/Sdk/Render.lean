import Sandcamp.Foundations.Base64
import Sandcamp.Foundations.JsonText
import Sandcamp.Sdk.Images

/-!
# Rendering a declaration for campd (render.go)

`renderStart` checks its input, turns every process into its wire form and encodes the
result: `json.Marshal`, with the members of embedded structs first and empty members of
`omitempty` fields left out, then base64. The wire types have no value `json.Marshal`
fails on.
-/

namespace Sandcamp.Sdk
open Foundations

def defaultCampdPath : Bytes := lit "/mnt/sandcamp/bin/campd"
def defaultOverlayDevicePath : Bytes := lit "/dev/vdb"
def runtimeSpecVersion : Int64 := 3

/-! ### Wire types -/

structure RuntimeProbe where
  path : Bytes
  port : Int64
  startupTimeoutMS : Int64
  periodMS : Int64
  timeoutMS : Int64
  failureThreshold : Int64
  successThreshold : Int64

structure RuntimeUser where
  name : Option Bytes
  uid : Option UInt32
  gid : Option UInt32

structure RuntimeBind where
  source : Bytes
  target : Bytes
  readOnly : Bool

structure RuntimeProcess where
  name : Bytes
  kind : Bytes
  command : List Bytes
  env : Environment
  workDir : Bytes
  readinessProbe : Option RuntimeProbe
  completionTimeoutMS : Int64

structure RuntimeSidecar extends RuntimeProcess where
  rootFS : Bytes
  overlayDevice : Bytes
  standardMounts : Bool
  diskMounts : List Bytes
  binds : List RuntimeBind
  user : Option RuntimeUser

structure RuntimeMain extends RuntimeProcess where
  user : Option RuntimeUser

structure RuntimeSpec where
  version : Int64
  sidecars : List RuntimeSidecar
  main : List RuntimeMain

/-! ### Conversion -/

/-- `toRuntimeUser` (`render.go:200-207`). -/
def toRuntimeUser (user : ProcessUser) : RuntimeUser :=
  if user.name ≠ [] then ⟨some user.name, none, none⟩ else ⟨none, some user.uid, some user.gid⟩

/-- `kind, _ := resolveProcessKind(..)`: the zero string beside an error. -/
def discardKind : Except Bytes Bytes → Bytes
  | .ok kind => kind
  | .error _ => []

/-- `probe, _ := resolveProbe(..)`: the zero probe beside an error. -/
def discardProbe : Except ProbeError ReadinessProbe → ReadinessProbe
  | .ok probe => probe
  | .error _ => ⟨[], 0, 0, 0, 0, 0, 0⟩

/-- The probe part of `toRuntimeProcess` (`render.go:218-229`). -/
def toRuntimeProbe (probe : ReadinessProbe) : RuntimeProbe :=
  let probe := discardProbe (resolveProbe probe)
  { path := probe.path
    port := probe.port
    startupTimeoutMS := milliseconds probe.startupTimeout
    periodMS := milliseconds probe.period
    timeoutMS := milliseconds probe.timeout
    failureThreshold := probe.failureThreshold
    successThreshold := probe.successThreshold }

/-- `toRuntimeProcess` (`render.go:209-234`). -/
def toRuntimeProcess (process : Process) : RuntimeProcess :=
  let kind := discardKind (resolveProcessKind process.kind)
  { name := process.name
    kind
    command := process.command
    env := process.env
    workDir := process.workDir
    readinessProbe := process.probe.map toRuntimeProbe
    completionTimeoutMS := if kind = runToCompletion then milliseconds process.timeout else 0 }

/-- `toRuntimeBinds` (`render.go:177-190`). -/
def toRuntimeBinds (mounts : List BindMount) : List RuntimeBind :=
  mounts.map fun mount => ⟨mount.source, mount.target, mount.readOnly⟩

/-- `toRuntimeSidecar` (`render.go:158-175`). -/
def toRuntimeSidecar (process : Process) (mountPath : Bytes) : RuntimeSidecar :=
  { toRuntimeProcess process with
    rootFS := mountPath
    overlayDevice := if process.overlayDevice = [] then defaultOverlayDevicePath
      else process.overlayDevice
    standardMounts := true
    diskMounts := process.diskMounts
    binds := toRuntimeBinds process.mounts
    user := process.user.map toRuntimeUser }

/-- `toRuntimeMain` (`render.go:192-198`). -/
def toRuntimeMain (process : Process) : RuntimeMain :=
  { toRuntimeProcess process with user := process.user.map toRuntimeUser }

/-- `images.sidecars[process.Name].mountPath`. -/
def ResolvedImageSet.mountPath (images : ResolvedImageSet) (name : Bytes) : Bytes :=
  ((images.sidecars.lookup name).map (·.mountPath)).getD []

/-- The value `encodeSpec` marshals (`render.go:137-150`). -/
def toRuntimeSpec (spec : Spec) (images : ResolvedImageSet) : RuntimeSpec where
  version := runtimeSpecVersion
  sidecars := spec.sidecars.map fun process =>
    toRuntimeSidecar process (images.mountPath process.name)
  main := spec.main.map toRuntimeMain

/-! ### JSON trees -/

/-- The members of a JSON object. -/
abbrev Members := List (Bytes × Json Bytes)

def member (key : String) (value : Json Bytes) : Members := [(lit key, value)]

/-- A member of an `omitempty` field. -/
def omitEmpty (key : String) (empty : Prop) [Decidable empty] (value : Json Bytes) : Members :=
  if empty then [] else member key value

def int (n : Int64) : Json Bytes := .number n.toInt

/-- A slice of strings; a nil slice, which is what an empty one is cloned to, is `null`. -/
def strings (items : List Bytes) : Json Bytes :=
  if items = [] then .null else .array (items.map .string)

def RuntimeProbe.json (probe : RuntimeProbe) : Json Bytes :=
  .object (member "path" (.string probe.path) ++ member "port" (int probe.port) ++
    member "startup_timeout_ms" (int probe.startupTimeoutMS) ++
    member "period_ms" (int probe.periodMS) ++ member "timeout_ms" (int probe.timeoutMS) ++
    member "failure_threshold" (int probe.failureThreshold) ++
    member "success_threshold" (int probe.successThreshold))

/-- A member for a pointer with `omitempty`. -/
def omitNil {α : Type} (key : String) (value : Option α) (json : α → Json Bytes) : Members :=
  match value with
  | none => []
  | some a => member key (json a)

def RuntimeUser.json (user : RuntimeUser) : Json Bytes :=
  .object (omitNil "name" user.name .string ++
    omitNil "uid" user.uid (fun uid => .number uid.toNat) ++
    omitNil "gid" user.gid (fun gid => .number gid.toNat))

def RuntimeBind.json (bind : RuntimeBind) : Json Bytes :=
  .object (member "source" (.string bind.source) ++ member "target" (.string bind.target) ++
    omitEmpty "readonly" (bind.readOnly = false) (.bool bind.readOnly))

def RuntimeProcess.members (process : RuntimeProcess) : Members :=
  member "name" (.string process.name) ++ member "kind" (.string process.kind) ++
    member "command" (strings process.command) ++
    omitEmpty "env" (process.env.toList = [])
      (.object (process.env.toList.map fun (key, value) => (key, .string value))) ++
    omitEmpty "workdir" (process.workDir = []) (.string process.workDir) ++
    omitNil "readiness_probe" process.readinessProbe RuntimeProbe.json ++
    omitEmpty "completion_timeout_ms" (process.completionTimeoutMS = 0)
      (int process.completionTimeoutMS)

def RuntimeSidecar.json (process : RuntimeSidecar) : Json Bytes :=
  .object (process.toRuntimeProcess.members ++ member "rootfs" (.string process.rootFS) ++
    omitEmpty "overlay_device" (process.overlayDevice = []) (.string process.overlayDevice) ++
    member "standard_mounts" (.bool process.standardMounts) ++
    omitEmpty "disk_mounts" (process.diskMounts = []) (strings process.diskMounts) ++
    omitEmpty "binds" (process.binds = []) (.array (process.binds.map RuntimeBind.json)) ++
    omitNil "user" process.user RuntimeUser.json)

def RuntimeMain.json (process : RuntimeMain) : Json Bytes :=
  .object (process.toRuntimeProcess.members ++ omitNil "user" process.user RuntimeUser.json)

def RuntimeSpec.json (spec : RuntimeSpec) : Json Bytes :=
  .object (member "version" (int spec.version) ++
    member "sidecars" (.array (spec.sidecars.map RuntimeSidecar.json)) ++
    member "main" (.array (spec.main.map RuntimeMain.json)))

/-- `json.Marshal`: U+FFFD takes the place of a byte that is no part of a UTF-8 sequence. How the
text spells it is not documented, and it is not the same in all versions of Go. -/
def marshal (replacement : Json.Replacement) (value : Json Bytes) : Bytes :=
  (value.map replacement.pieces).write

/-- `encodeSpec` (`render.go:136-156`). -/
def encodeSpec (replacement : Json.Replacement) (spec : Spec) (images : ResolvedImageSet) : Bytes :=
  Base64.encode (marshal replacement (toRuntimeSpec spec images).json)

/-! ### The instance configuration -/

structure PortConfiguration where
  name : Bytes
  port : Int64
  protocol : Bytes
  deriving DecidableEq

structure EnvVar where
  name : Bytes
  value : Bytes
  deriving DecidableEq

structure HttpGetAction where
  path : Bytes
  port : Int64
  scheme : Bytes
  deriving DecidableEq

structure ProbeConfiguration where
  httpGet : HttpGetAction
  readyTimeoutMs : Int64
  probePeriodMs : Int64
  probeTimeoutMs : Int64
  successThreshold : Int64
  failureThreshold : Int64
  deriving DecidableEq

structure CustomConfiguration where
  command : List Bytes
  args : List Bytes
  env : List EnvVar
  ports : List PortConfiguration
  probe : ProbeConfiguration
  deriving DecidableEq

inductive RenderError where
  | image (error : ImageError)
  | spec (error : SpecError)
  | missingSidecarImage (name : Bytes)
  | specTooLarge (length : ℕ)
  deriving DecidableEq

/-- `exposedPorts` (`render.go:236-245`). -/
def exposedPorts (spec : Spec) : List Int64 :=
  (spec.processes.flatMap (·.expose)).mergeSort fun a b => decide (a ≤ b)

def portConfiguration (port : Int64) : PortConfiguration where
  name := lit "port-" ++ Json.integer port.toInt
  port := port
  protocol := lit "TCP"

/-- The probe AGS runs against campd (`render.go:66-77`). -/
def controlProbe : ProbeConfiguration where
  httpGet := { path := lit "/ready", port := controlPort, scheme := lit "HTTP" }
  readyTimeoutMs := 30000
  probePeriodMs := 1000
  probeTimeoutMs := 2000
  successThreshold := 1
  failureThreshold := 30

/-- `RenderStart` (`render.go:21-81`). -/
def renderStart (replacement : Json.Replacement) (images : ImageSet) (spec : Spec) :
    Except RenderError CustomConfiguration := do
  let resolved ← (resolveImageSet images).mapError .image
  spec.validate.mapError .spec
  forEach (fun process =>
      rejectIf ((resolved.sidecars.lookup process.name).isNone)
        (.missingSidecarImage process.name))
    spec.sidecars
  let payload := encodeSpec replacement spec resolved
  rejectIf (maxEncodedSpecBytes < payload.length) (.specTooLarge payload.length)
  .ok { command := [defaultCampdPath]
        args := [lit "--"]
        env := [⟨specEnvironment, payload⟩]
        ports := (exposedPorts spec).map portConfiguration
        probe := controlProbe }

end Sandcamp.Sdk
