import Sandcamp.Foundations.UnixPath
import Std.Data.ExtTreeMap

/-!
# The runtime declaration campd works from (spec.rs, runtime.rs)

Data types of `campd::spec` and the flattened `LaunchProcess` list of
`campd::runtime`. Rust strings are byte strings, `BTreeMap<String, String>` is
`Env`, fixed-width integers keep their width. The seven fields a sidecar, a main
process and a launch process share are one structure, `CommonProcess`.
-/

namespace Sandcamp.Campd
open Foundations

/-- `BTreeMap<String, String>`. -/
abbrev Env := Std.ExtTreeMap Bytes Bytes compare

inductive ProcessKind where
  | service
  | runToCompletion
  deriving DecidableEq, Repr

structure NamedUser where
  name : Bytes
  deriving DecidableEq

structure NumericUser where
  uid : UInt32
  gid : UInt32
  deriving DecidableEq

inductive ProcessUser where
  | named (user : NamedUser)
  | numeric (user : NumericUser)
  deriving DecidableEq

structure Bind where
  source : Bytes
  target : Bytes
  readonly : Bool
  deriving DecidableEq

structure Probe where
  path : Bytes
  port : UInt16
  startupTimeoutMs : UInt64
  periodMs : UInt64
  timeoutMs : UInt64
  failureThreshold : UInt32
  successThreshold : UInt32
  deriving DecidableEq

/-- The fields `validate_common` receives (`spec.rs:317-328`). -/
structure CommonProcess where
  name : Bytes
  kind : ProcessKind
  command : List Bytes
  env : Env
  workdir : Bytes
  readinessProbe : Option Probe
  completionTimeoutMs : Option UInt64
  deriving DecidableEq

structure SidecarProcess extends CommonProcess where
  rootfs : Bytes
  overlayDevice : Option Bytes
  standardMounts : Bool
  diskMounts : List Bytes
  binds : List Bind
  user : Option ProcessUser
  deriving DecidableEq

structure MainProcess extends CommonProcess where
  user : Option ProcessUser
  deriving DecidableEq

structure Spec where
  version : UInt8
  sidecars : List SidecarProcess
  main : List MainProcess
  deriving DecidableEq

/-- `SpecError(String)`. -/
structure SpecError where
  message : Bytes
  deriving DecidableEq

def legacyRuntimeSpecVersion : UInt8 := 2
def runtimeSpecVersion : UInt8 := 3
def maxEncodedBytes : ℕ := 120 * 1024
def agsReadyTimeoutMs : UInt64 := 30000
def maxStartupBudgetMs : UInt64 := 25000
def controlPort : UInt16 := 49982

/-- The variable that carries the declaration. -/
def specEnvironment : Bytes := lit "SANDCAMP_SPEC"

def standardMountTargets : List Bytes :=
  [lit "/proc", lit "/dev", lit "/sys", lit "/tmp", lit "/run", lit "/etc/resolv.conf",
    lit "/etc/hosts"]

/-- All processes of a declaration, in launch order. -/
def Spec.processes (spec : Spec) : List CommonProcess :=
  spec.sidecars.map (·.toCommonProcess) ++ spec.main.map (·.toCommonProcess)

end Sandcamp.Campd
