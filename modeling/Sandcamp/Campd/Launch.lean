import Sandcamp.Foundations.Checks
import Sandcamp.Foundations.Utf8
import Sandcamp.Campd.Spec

/-!
# From a declaration to child processes (runtime.rs:60-85, 594-813)

`flatten` turns a declaration into the launch list, resolving the users of main
processes against one snapshot of `/etc/passwd`; `build_command` describes the
child of one launch process. What the operating system answers when
`/etc/passwd` is examined and read is the argument `PasswdFile`; a `Command` keeps
its environment operations in call order and applies them to campd's own
environment.
-/

namespace Sandcamp.Campd
open Foundations

inductive ProcessSource where
  | main (user : Option NumericUser)
  | sidecar (rootfs : Bytes) (overlayDevice : Option Bytes) (standardMounts : Bool)
      (diskMounts : List Bytes) (binds : List Bind) (user : Option ProcessUser)
  deriving DecidableEq

structure LaunchProcess extends CommonProcess where
  source : ProcessSource
  deriving DecidableEq

/-- `RuntimeError(String)`. -/
structure RuntimeError where
  message : Bytes
  deriving DecidableEq

/-! ### The password file -/

def maxPasswdBytes : ℕ := 1024 * 1024

/-- What examining and reading `/etc/passwd` gives; an error is its text. -/
structure PasswdFile where
  /-- Whether it is a regular file, and its length. -/
  metadata : Except Bytes (Bool × ℕ)
  /-- The bytes a reader gets. -/
  contents : Except Bytes Bytes

/-- `read_main_passwd` (`runtime.rs:617-646`). -/
def readMainPasswd (file : PasswdFile) : Except RuntimeError Bytes := do
  let (isFile, length) ← file.metadata.mapError fun error =>
    ⟨lit "main passwd_stat_failed: /etc/passwd: " ++ error⟩
  rejectIf (isFile = false)
    (RuntimeError.mk (lit "main invalid_passwd_entry: /etc/passwd is not a regular file"))
  rejectIf (maxPasswdBytes < length) (RuntimeError.mk (lit "main passwd_too_large: /etc/passwd"))
  let contents ← (file.contents.map (·.take (maxPasswdBytes + 1))).mapError fun error =>
    ⟨lit "main passwd_read_failed: /etc/passwd: " ++ error⟩
  rejectIf (maxPasswdBytes < contents.length)
    (RuntimeError.mk (lit "main passwd_too_large: /etc/passwd"))
  rejectIf (Utf8.valid contents = false)
    (RuntimeError.mk (lit "main invalid_passwd_entry: /etc/passwd is not UTF-8"))
  .ok contents

/-- `main invalid_passwd_entry: line {line}: {reason}`. -/
def passwdEntryError (line : ℕ) (reason : Bytes) : RuntimeError :=
  ⟨lit "main invalid_passwd_entry: line " ++ decimal line ++ lit ": " ++ reason⟩

/-- `parse_main_passwd_id` (`runtime.rs:676-690`). -/
def parseMainPasswdId (value : Bytes) (line : ℕ) (reason : Bytes) : Except RuntimeError UInt32 :=
  match parseUnsigned (2 ^ 32) value with
  | none => .error (passwdEntryError line reason)
  | some id =>
    if id = 2 ^ 32 - 1 then .error (passwdEntryError line reason) else .ok (UInt32.ofNat id)

/-- One round of the loop over the lines (`runtime.rs:650-672`). -/
def parseMainPasswdLine (user : Bytes) (found : Option NumericUser) (entry : Bytes × ℕ) :
    Except RuntimeError (Option NumericUser) :=
  let (line, index) := entry
  let lineNumber := index + 1
  let fields := line.splitOn 58
  if line = [] ∨ line.head? = some 35 then .ok found
  else if fields.head? ≠ some user then .ok found
  else do
    rejectIf (found.isSome) (passwdEntryError lineNumber (lit "user name is duplicated"))
    match fields with
    | [_, _, uid, gid, _, _, _] => do
      let uid ← parseMainPasswdId uid lineNumber (lit "UID is invalid")
      let gid ← parseMainPasswdId gid lineNumber (lit "GID is invalid")
      .ok (some ⟨uid, gid⟩)
    | _ => .error (passwdEntryError lineNumber (lit "matching entry must contain seven fields"))

/-- `parse_main_passwd` (`runtime.rs:648-674`). -/
def parseMainPasswd (contents user : Bytes) : Except RuntimeError NumericUser := do
  let found ← (lines contents).zipIdx.foldlM (parseMainPasswdLine user) none
  okOr found ⟨lit "main user_not_found: " ++ user⟩

/-! ### The launch list -/

/-- The numeric identity of each named main user. -/
abbrev MainUsers := Std.ExtTreeMap Bytes NumericUser compare

/-- One round of the loop of `resolve_main_users` (`runtime.rs:607-613`). -/
def resolveMainUser (contents : Bytes) (resolved : MainUsers) (process : MainProcess) :
    Except RuntimeError MainUsers :=
  match process.user with
  | some (.named user) =>
    if resolved.contains user.name then .ok resolved
    else do
      let id ← parseMainPasswd contents user.name
      .ok (resolved.insert user.name id)
  | _ => .ok resolved

def namesUser (process : MainProcess) : Bool :=
  match process.user with
  | some (.named _) => true
  | _ => false

/-- `resolve_main_users` (`runtime.rs:594-615`). -/
def resolveMainUsers (file : PasswdFile) (processes : List MainProcess) :
    Except RuntimeError MainUsers :=
  if processes.any namesUser then do
    let contents ← readMainPasswd file
    processes.foldlM (resolveMainUser contents) ∅
  else .ok ∅

/-- `from_sidecar` (`runtime.rs:704-722`). -/
def fromSidecar (process : SidecarProcess) : LaunchProcess where
  toCommonProcess := process.toCommonProcess
  source := .sidecar process.rootfs process.overlayDevice process.standardMounts
    process.diskMounts process.binds process.user

/-- `from_main` (`runtime.rs:724-747`). -/
def fromMain (resolvedUsers : MainUsers) (process : MainProcess) :
    Except (Failure RuntimeError) LaunchProcess := do
  let user ← match process.user with
    | some (.named user) => do
      let id ← expect resolvedUsers[user.name]?
      .ok (some id)
    | some (.numeric user) => .ok (some user)
    | none => .ok none
  .ok { toCommonProcess := process.toCommonProcess, source := .main user }

/-- `flatten` (`runtime.rs:692-702`). -/
def flatten (file : PasswdFile) (spec : Spec) :
    Except (Failure RuntimeError) (List LaunchProcess) := do
  let mainUsers ← (resolveMainUsers file spec.main).mapError .error
  let main ← spec.main.mapM (fromMain mainUsers)
  .ok (spec.sidecars.map fromSidecar ++ main)

theorem fromMain_common (users : MainUsers) (process : MainProcess)
    (launch : LaunchProcess) (h : fromMain users process = .ok launch) :
    launch.toCommonProcess = process.toCommonProcess := by
  simp only [fromMain] at h
  split at h
  · simp only [bind_eq_ok, Except.ok.injEq, exists_eq_left'] at h
    obtain ⟨user, -, rfl⟩ := h
    rfl
  · simp only [bind_eq_ok, Except.ok.injEq, exists_eq_left'] at h
    rw [← h]
  · simp only [bind_eq_ok, Except.ok.injEq, exists_eq_left'] at h
    rw [← h]

/-- Flattening keeps the declared fields of every process, sidecars first. -/
theorem flatten_common (file : PasswdFile) (spec : Spec) (launch : List LaunchProcess)
    (h : flatten file spec = .ok launch) :
    launch.map (·.toCommonProcess) = spec.processes := by
  simp only [flatten, bind_eq_ok, mapError_eq_ok, mapM_eq_ok, Except.ok.injEq] at h
  obtain ⟨users, -, main, hmain, rfl⟩ := h
  have hcommon : main.map (·.toCommonProcess) = spec.main.map (·.toCommonProcess) := by
    generalize spec.main = declared at hmain
    induction hmain with
    | nil => rfl
    | cons hone _ ih =>
      rw [List.map_cons, List.map_cons, fromMain_common _ _ _ hone, ih]
  rw [List.map_append, hcommon, List.map_map]
  rfl

/-! ### One child -/

inductive Stdio where
  | null
  | inherit
  deriving DecidableEq

/-- One call that edits the environment of a `Command`. -/
inductive EnvOperation where
  | clear
  | set (key value : Bytes)
  | remove (key : Bytes)
  deriving DecidableEq

def EnvOperation.apply (env : Env) : EnvOperation → Env
  | clear => ∅
  | set key value => env.insert key value
  | remove key => env.erase key

/-- `std::process::Command`. -/
structure Command where
  program : Bytes
  args : List Bytes
  currentDir : Option Bytes
  environment : List EnvOperation
  stdin : Stdio
  stdout : Stdio
  stderr : Stdio
  deriving DecidableEq

/-- The environment of the child, from the one of the parent. -/
def Command.childEnv (command : Command) (inherited : Env) : Env :=
  command.environment.foldl EnvOperation.apply inherited

/-- `command.envs(&process.env)`. -/
def setEnvs (env : Env) : List EnvOperation := env.toList.map fun (key, value) => .set key value

/-- The arguments of a sidecar's user (`runtime.rs:789-801`). -/
def userArgs : Option ProcessUser → List Bytes
  | none => []
  | some (.named user) => [lit "--user", user.name]
  | some (.numeric user) =>
    [lit "--uid", decimal user.uid.toNat, lit "--gid", decimal user.gid.toNat]

/-- The arguments of sandrun (`runtime.rs:769-803`). -/
def sandrunArgs (process : LaunchProcess) (rootfs : Bytes) (overlayDevice : Option Bytes)
    (standardMounts : Bool) (diskMounts : List Bytes) (binds : List Bind)
    (user : Option ProcessUser) : List Bytes :=
  [lit "--rootfs", rootfs] ++
  overlayDevice.toList.flatMap (fun device => [lit "--overlay-device", device]) ++
  [lit "--overlay-id", process.name] ++
  (if standardMounts then [lit "--standard-mounts"] else []) ++
  diskMounts.flatMap (fun target => [lit "--disk-mount", target]) ++
  binds.flatMap (fun bind =>
    [if bind.readonly then lit "--ro-bind" else lit "--bind", bind.source, bind.target]) ++
  (if process.workdir ≠ [] then [lit "--workdir", process.workdir] else []) ++
  userArgs user ++
  [lit "--"] ++ process.command

/-- `build_command` (`runtime.rs:749-813`). -/
def buildCommand {ε : Type} (process : LaunchProcess) (sandrun : Bytes) :
    Except (Failure ε) Command := do
  let command : Command ← match process.source with
    | .main _ => do
      let program ← expect process.command[0]?
      let args ← sliceFrom process.command 1
      .ok {
        program := program
        args := args
        currentDir := if process.workdir ≠ [] then some process.workdir else none
        environment := []
        stdin := .inherit
        stdout := .inherit
        stderr := .inherit }
    | .sidecar rootfs overlayDevice standardMounts diskMounts binds user =>
      .ok {
        program := sandrun
        args := sandrunArgs process rootfs overlayDevice standardMounts diskMounts binds user
        currentDir := none
        environment := [.clear]
        stdin := .inherit
        stdout := .inherit
        stderr := .inherit }
  .ok { command with
    environment := command.environment ++ setEnvs process.env ++ [.remove specEnvironment]
    stdin := .null
    stdout := .inherit
    stderr := .inherit }

end Sandcamp.Campd
