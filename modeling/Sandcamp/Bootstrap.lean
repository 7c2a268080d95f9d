import Sandcamp.Foundations.Execve
import Sandcamp.Accounts
import Sandcamp.Flattening
import Sandcamp.Switching

/-!
# From the user of the image to the user of a command (campd-launcher/main.c)

The image starts the setuid launcher as whatever user it names. The launcher makes itself root and
becomes campd, campd's child switches to the user of a main process or becomes sandrun, and
sandrun switches to the user of a sidecar. The command is that user and no other.
-/

namespace Sandcamp.Bootstrap
open Foundations Sandcamp.Switching
open Sandrun (UserIdentity Host Tree resolveIdentity resolveUser)
open Campd (NumericUser LaunchProcess PasswdFile WellFormed WellFormedUser flatten)

/-! ### The launcher -/

/-- A text of its own, or an operation with the error of the kernel behind it. -/
inductive Refusal where
  | text (message : Bytes)
  | operation (call : Bytes)
  deriving DecidableEq

/-- What it writes to standard error. -/
def Refusal.line (strerror : Bytes) : Refusal → Bytes
  | .text message => lit "campd-launcher: " ++ message ++ lit "\n"
  | .operation call =>
    lit "campd-launcher: " ++ call ++ lit ": " ++ strerror ++ lit "\n"

/-- Every refusal has one exit status. -/
def Refusal.status (_ : Refusal) : ℕ := 125

def target : Bytes := lit "/mnt/sandcamp/bin/campd.real"

/-- `/bin/campd` of the runtime image: `root:root 4755`. -/
def launcherFile (nosuid : Bool) : Executable where
  setuid := some 0
  setgid := none
  capabilities := none
  nosuid := nosuid

/-- `main` (`campd-launcher/main.c:17-49`): the arguments campd starts with. `argv` is `none` for
`NULL`; `execFails` is the answer to `execve`. -/
def launcher (denied : CredentialCall → Bool) (execFails noRoot : Bool) (pid : ℕ)
    (argv : Option (List Bytes)) : EStateM Refusal Credentials (List Bytes) := do
  reading fun _ => rejectIf (argv.getD [] = []) (.text (lit "invalid argv"))
  reading fun _ => rejectIf (pid ≠ 1) (.text (lit "refusing non-PID-1 invocation"))
  reading fun process => rejectIf (process.euid ≠ 0) (.text
    (lit "setuid bootstrap did not obtain effective UID 0; check nosuid and no_new_privs"))
  credentialCall denied (.operation (lit "setgroups failed")) (.setGroups [])
  credentialCall denied (.operation (lit "setresgid failed")) (.setResGid 0 0 0)
  credentialCall denied (.operation (lit "setresuid failed")) (.setResUid 0 0 0)
  reading fun _ => rejectIf (execFails = true) (.operation (lit "execve campd failed"))
  modify (Credentials.execve noRoot .plain)
  pure (target :: (argv.getD []).tail)

/-- How campd is started: the container becomes the launcher, and this becomes campd. -/
def bootstrap (denied : CredentialCall → Bool) (nosuid execFails noRoot : Bool) (pid : ℕ)
    (argv : Option (List Bytes)) : EStateM Refusal Credentials (List Bytes) := do
  modify (Credentials.execve noRoot (launcherFile nosuid))
  launcher denied execFails noRoot pid argv

/-- Root without groups. -/
structure RootAlone (c : Credentials) : Prop where
  ids : c.ids = [0, 0, 0, 0, 0, 0]
  groups : c.groups = []

/-- The calls that make the launcher root. -/
def rootCalls : List CredentialCall := [.setGroups [], .setResGid 0 0 0, .setResUid 0 0 0]

theorem modify_bind_ok {ε σ α : Type} (f : σ → σ) (x : EStateM ε σ α) (s s' : σ) (a : α) :
    (modify f >>= fun _ => x) s = .ok a s' ↔ x (f s) = .ok a s' :=
  Iff.rfl

section Launcher

variable {denied : CredentialCall → Bool} {nosuid execFails noRoot : Bool} {pid : ℕ}
  {argv : Option (List Bytes)} {before after : Credentials} {args : List Bytes}

theorem launcher_eq_ok : launcher denied execFails noRoot pid argv before = .ok args after ↔
    (argv.getD [] ≠ [] ∧ pid = 1 ∧ before.euid = 0) ∧
      (∀ call ∈ rootCalls, denied call = false) ∧ execFails = false ∧
      args = target :: (argv.getD []).tail ∧
      ∃ c₁ c₂ c₃, before.setGroups [] = some c₁ ∧ c₁.setResGid 0 0 0 = some c₂ ∧
        c₂.setResUid 0 0 0 = some c₃ ∧ after = c₃.execve noRoot .plain := by
  unfold launcher rootCalls
  simp only [action_bind_eq_ok, reading_eq_ok, rejectIf_eq_ok, exists_unit, credentialCall_ok_iff,
    not_not, ne_eq, Bool.not_eq_true, List.forall_mem_cons, List.not_mem_nil, false_imp_iff,
    implies_true, and_true]
  constructor
  · rintro ⟨_, ⟨hargv, rfl⟩, _, ⟨hpid, rfl⟩, _, ⟨heuid, rfl⟩, c₁, ⟨hd₁, h₁⟩, c₂, ⟨hd₂, h₂⟩,
      c₃, ⟨hd₃, h₃⟩, _, ⟨hexec, rfl⟩, _, hmodify, hpure⟩
    cases hmodify
    cases hpure
    exact ⟨⟨hargv, hpid, heuid⟩, ⟨hd₁, hd₂, hd₃⟩, hexec, rfl, c₁, c₂, _, h₁, h₂, h₃, rfl⟩
  · rintro ⟨⟨hargv, hpid, heuid⟩, ⟨hd₁, hd₂, hd₃⟩, hexec, rfl, c₁, c₂, c₃, h₁, h₂, h₃, rfl⟩
    exact ⟨_, ⟨hargv, rfl⟩, _, ⟨hpid, rfl⟩, _, ⟨heuid, rfl⟩, c₁, ⟨hd₁, h₁⟩, c₂, ⟨hd₂, h₂⟩,
      c₃, ⟨hd₃, h₃⟩, _, ⟨hexec, rfl⟩, _, rfl, rfl⟩

/-- Whoever starts the launcher, campd is root alone or is not. -/
theorem launcher_root (h : launcher denied execFails noRoot pid argv before = .ok args after) :
    RootAlone after := by
  obtain ⟨-, -, -, -, c₁, c₂, c₃, h₁, h₂, h₃, rfl⟩ := launcher_eq_ok.mp h
  obtain ⟨hids, hgroups, -, -⟩ := groups_then_ids (by decide) (by decide) h₁ h₂ h₃
  simp only [Credentials.ids, List.cons.injEq, and_true] at hids
  obtain ⟨hruid, heuid, hsuid, hrgid, hegid, hsgid⟩ := hids
  obtain ⟨hplain, hkept⟩ := Credentials.execve_plain noRoot c₃ (heuid.trans hruid.symm)
    (hegid.trans hrgid.symm)
  rw [hruid, hrgid] at hplain
  exact ⟨hplain, hkept.trans hgroups⟩

end Launcher

/-! ### Who can start it -/

theorem setResGid_root {c : Credentials} (hroot : c.euid = 0)
    (hcapable : c.capable Credentials.capSetGid = true) :
    ∃ c', c.setResGid 0 0 0 = some c' ∧ c'.euid = 0 := by
  simp [Credentials.setResGid, hcapable, hroot]

theorem setResUid_root {c : Credentials} (hroot : c.euid = 0) :
    ∃ c', c.setResUid 0 0 0 = some c' := by
  simp [Credentials.setResUid, Credentials.foreign, hroot]

/-- An effective root makes itself root alone where it may change groups. -/
theorem root_calls {c : Credentials} (hroot : c.euid = 0) :
    (∃ c₁ c₂ c₃, c.setGroups [] = some c₁ ∧ c₁.setResGid 0 0 0 = some c₂ ∧
      c₂.setResUid 0 0 0 = some c₃) ↔ c.capable Credentials.capSetGid = true := by
  constructor
  · rintro ⟨c₁, c₂, c₃, hgroups, -, -⟩
    unfold Credentials.setGroups at hgroups
    by_contra hincapable
    rw [if_neg hincapable] at hgroups
    cases hgroups
  · intro hcapable
    have hgroups : c.setGroups [] = some { c with groups := [] } := if_pos hcapable
    obtain ⟨c₂, hresgid, hroot₂⟩ := setResGid_root (c := { c with groups := [] }) hroot hcapable
    obtain ⟨c₃, hresuid⟩ := setResUid_root hroot₂
    exact ⟨_, c₂, c₃, hgroups, hresgid, hresuid⟩

section Unprivileged

variable {nosuid noRoot : Bool} {start : Credentials}

/-- The launcher is effective root where both its bit and a gain of privileges count. -/
theorem launcherFile_root (hruid : start.ruid ≠ 0) (heuid : start.euid ≠ 0) :
    (start.execve noRoot (launcherFile nosuid)).euid = 0 ↔
      nosuid = false ∧ start.noNewPrivs = false := by
  have hids : (start.execve noRoot (launcherFile nosuid)).euid =
      (start.allowed noRoot (launcherFile nosuid)).1 := rfl
  rw [hids]
  unfold Credentials.allowed Credentials.claimed
  cases nosuid <;> cases hnew : start.noNewPrivs
  all_goals grind [launcherFile]

theorem launcherFile_capable (hruid : start.ruid ≠ 0) (hnew : start.noNewPrivs = false)
    (capability : ℕ) : (start.execve noRoot (launcherFile false)).capable capability =
      (!noRoot && (start.bounding ||| start.inheritable).toNat.testBit capability) := by
  have hclaimed : start.claimed (launcherFile false) = (0, start.egid) := by
    simp [Credentials.claimed, hnew, launcherFile]
  have hambient : start.ambientAfter (launcherFile false) = 0 := by
    simp [Credentials.ambientAfter, hclaimed, Ne.symm hruid]
  have hgranted : start.granted noRoot (launcherFile false) 0 =
      if noRoot then (0, false) else (start.bounding ||| start.inheritable, true) := by
    simp [Credentials.granted, Executable.attached, launcherFile]
  have heffective : (start.execve noRoot (launcherFile false)).effective =
      if noRoot then 0 else start.bounding ||| start.inheritable := by
    simp only [Credentials.execve, Credentials.allowed, hclaimed, hambient, hgranted, hnew]
    cases noRoot <;> simp
  rw [Credentials.capable, heffective]
  cases noRoot <;> simp

/-- Where the user of the image is not root, campd starts exactly where the runtime image is as its
documentation has it and the container has the capability to change groups. -/
theorem bootstrap_iff {denied : CredentialCall → Bool} {execFails : Bool} {pid : ℕ}
    {argv : Option (List Bytes)} (hruid : start.ruid ≠ 0) (heuid : start.euid ≠ 0) :
    (∃ args campd, bootstrap denied nosuid execFails noRoot pid argv start = .ok args campd) ↔
      (argv.getD [] ≠ [] ∧ pid = 1) ∧ (nosuid = false ∧ start.noNewPrivs = false) ∧
        (noRoot = false ∧
          (start.bounding ||| start.inheritable).toNat.testBit Credentials.capSetGid = true) ∧
        (∀ call ∈ rootCalls, denied call = false) ∧ execFails = false := by
  have hroot : (start.execve noRoot (launcherFile nosuid)).euid = 0 ↔
      nosuid = false ∧ start.noNewPrivs = false := launcherFile_root hruid heuid
  have hrun : ∀ args campd, bootstrap denied nosuid execFails noRoot pid argv start =
      .ok args campd ↔ launcher denied execFails noRoot pid argv
        (start.execve noRoot (launcherFile nosuid)) = .ok args campd := fun _ _ => Iff.rfl
  simp only [hrun, launcher_eq_ok]
  constructor
  · rintro ⟨args, campd, ⟨hargv, hpid, hstarted⟩, hdenied, hexec, -, c₁, c₂, c₃, h₁, h₂, h₃, -⟩
    obtain ⟨rfl, hnew⟩ := hroot.mp hstarted
    have hcapable := (root_calls hstarted).mp ⟨c₁, c₂, c₃, h₁, h₂, h₃⟩
    rw [launcherFile_capable hruid hnew, Bool.and_eq_true, Bool.not_eq_true'] at hcapable
    exact ⟨⟨hargv, hpid⟩, ⟨rfl, hnew⟩, hcapable, hdenied, hexec⟩
  · rintro ⟨⟨hargv, hpid⟩, ⟨rfl, hnew⟩, hcapable, hdenied, hexec⟩
    have hstarted := hroot.mpr ⟨rfl, hnew⟩
    rw [← Bool.not_eq_true', ← Bool.and_eq_true, ← launcherFile_capable hruid hnew] at hcapable
    obtain ⟨c₁, c₂, c₃, h₁, h₂, h₃⟩ := (root_calls hstarted).mpr hcapable
    exact ⟨_, _, ⟨hargv, hpid, hstarted⟩, hdenied, hexec, rfl, c₁, c₂, c₃, h₁, h₂, h₃, rfl⟩

end Unprivileged

/-- A container of the user 1000 without capabilities, in the usual bounding set. -/
def imageUser : Credentials where
  ruid := 1000
  euid := 1000
  suid := 1000
  fsuid := 1000
  rgid := 1000
  egid := 1000
  sgid := 1000
  fsgid := 1000
  groups := [1000]
  ambient := 0
  inheritable := 0
  permitted := 0
  effective := 0
  bounding := 0xA80425FB
  noNewPrivs := false
  keepCaps := false
  noSetuidFixup := false

theorem bootstrap_iff_user : ∃ args campd, bootstrap (fun _ => false) false false false 1
    (some [lit "/mnt/sandcamp/bin/campd"]) imageUser = .ok args campd :=
  (bootstrap_iff (by decide) (by decide)).mpr ⟨by decide, by decide, by decide, by simp, rfl⟩

/-! ### The identities that are declared -/

theorem ne_keep_of_idField {field : Bytes} {id : UInt32} (h : Accounts.IdField field id) :
    id ≠ Credentials.keep := by
  intro hkeep
  exact h.2 (congrArg UInt32.toNat hkeep)

theorem onlyEntry_ids {contents user : Bytes} {uid gid : UInt32}
    (h : Accounts.OnlyEntry contents user uid gid) :
    uid ≠ Credentials.keep ∧ gid ≠ Credentials.keep := by
  obtain ⟨line, uidField, gidField, -, -, huid, hgid⟩ := h
  exact ⟨ne_keep_of_idField huid, ne_keep_of_idField hgid⟩

/-- No process of campd's list is to run as the id that changes nothing. -/
theorem launched_ids {file : PasswdFile} {spec : Campd.Spec} {launch : List LaunchProcess}
    {process : LaunchProcess} {user : NumericUser} (hwell : WellFormed spec)
    (hflatten : flatten file spec = .ok launch) (hmem : process ∈ launch)
    (hsource : process.source = .main (some user)) :
    user.uid ≠ Credentials.keep ∧ user.gid ≠ Credentials.keep := by
  obtain ⟨contents, sidecars, main, rfl, hsidecars, -, hmain⟩ :=
    (Flattening.flattened_of_ok hflatten).lists
  rcases List.mem_append.mp hmem with hsidecar | hmem
  · obtain ⟨declared, -, hlaunches⟩ := forall₂_left hsidecars.flip process hsidecar
    rw [hlaunches.source] at hsource
    cases hsource
  · obtain ⟨declared, hdeclared, hlaunches⟩ := forall₂_left hmain.flip process hmem
    obtain ⟨id, hid, hresolves⟩ := hlaunches.source
    rw [hsource] at hid
    cases hid
    cases huser : declared.user with
    | none =>
      rw [huser] at hresolves
      cases hresolves
    | some declaredUser =>
      have hwellUser := (hwell.main declared hdeclared).user declaredUser huser
      rw [huser] at hresolves
      cases declaredUser with
      | numeric id =>
        cases hresolves
        exact hwellUser
      | named name =>
        obtain ⟨found, hparse, hfound⟩ := hresolves
        cases hfound
        exact onlyEntry_ids ((Accounts.parseMainPasswd_eq_ok contents name.name user.uid
          user.gid).mp hparse)

/-- Nor does sandrun take one from its command line or from the rootfs. -/
theorem resolveIdentity_ids {host : Host} {tree : Tree} {rootfs : Bytes}
    {user : Option Sandrun.ProcessUser} {identity : UserIdentity}
    (h : resolveIdentity host tree rootfs user = .ok (some identity)) :
    identity.uid ≠ Credentials.keep ∧ identity.gid ≠ Credentials.keep := by
  cases user with
  | none => cases h
  | some user =>
    cases user with
    | numeric uid gid =>
      simp only [resolveIdentity, bind_eq_ok, rejectIf_eq_ok, exists_unit, not_or] at h
      obtain ⟨⟨huid, hgid⟩, hidentity⟩ := h
      cases hidentity
      exact ⟨fun hkeep => huid (congrArg UInt32.toNat hkeep),
        fun hkeep => hgid (congrArg UInt32.toNat hkeep)⟩
    | named name =>
      simp only [resolveIdentity, bind_eq_ok] at h
      obtain ⟨found, hfound, hidentity⟩ := h
      cases hidentity
      simp only [resolveUser, bind_eq_ok] at hfound
      obtain ⟨position, -, kind, -, hfound⟩ := hfound
      cases kind with
      | regular contents =>
        simp only [bind_eq_ok] at hfound
        obtain ⟨-, -, -, -, -, -, -, -, hparse⟩ := hfound
        exact onlyEntry_ids ((Accounts.parsePasswd_eq_ok _ name identity.uid
          identity.gid).mp hparse)
      | _ => cases hfound

/-! ### The commands -/

/-- The container becomes campd through the launcher. -/
def Boots (start campd : Credentials) : Prop :=
  ∃ denied nosuid execFails noRoot pid argv args,
    bootstrap denied nosuid execFails noRoot pid argv start = .ok args campd

/-- A child of campd becomes a program (`runtime.rs:262-276`). -/
def Spawns (campd : Credentials) (user : Option NumericUser) (file : Executable)
    (program : Credentials) : Prop :=
  ∃ denied setpgid exec after noRoot, preExec denied setpgid user campd = .ok exec after ∧
    program = exec.execve noRoot file

/-- sandrun becomes the command (`linux.rs:122-135`). -/
def Replaces (sandrun : Credentials) (identity : Option UserIdentity) (file : Executable)
    (command : Credentials) : Prop :=
  ∃ denied exec after noRoot, execCommand denied identity sandrun = .ok exec after ∧
    command = exec.execve noRoot file

/-- A command with the real ids of its user and no group besides, which keeps to that user
whatever it calls and whatever it becomes, root apart. -/
structure Governs (uid gid : UInt32) (command : Credentials) : Prop where
  real : command.ruid = uid ∧ command.rgid = gid ∧ command.groups = []
  kept : uid ≠ 0 → ∀ acts, (command.acts acts).Settled uid gid []

theorem RootAlone.eqs {c : Credentials} (h : RootAlone c) :
    (c.ruid = 0 ∧ c.euid = 0) ∧ c.rgid = 0 ∧ c.egid = 0 := by
  have hids := h.ids
  simp only [Credentials.ids, List.cons.injEq, and_true] at hids
  exact ⟨⟨hids.1, hids.2.1⟩, hids.2.2.2.1, hids.2.2.2.2.1⟩

theorem RootAlone.plain {c : Credentials} (h : RootAlone c) (noRoot : Bool) :
    RootAlone (c.execve noRoot .plain) := by
  obtain ⟨⟨hruid, heuid⟩, hrgid, hegid⟩ := h.eqs
  obtain ⟨hids, hgroups⟩ := Credentials.execve_plain noRoot c (heuid.trans hruid.symm)
    (hegid.trans hrgid.symm)
  rw [hruid, hrgid] at hids
  exact ⟨hids, hgroups.trans h.groups⟩

theorem RootAlone.governs {c : Credentials} (h : RootAlone c) (noRoot : Bool)
    (file : Executable) : Governs 0 0 (c.execve noRoot file) :=
  ⟨⟨h.eqs.1.1, h.eqs.2.1, h.groups⟩, fun hzero => absurd rfl hzero⟩

/-- An identity that was taken whole is that of every program from there on. -/
theorem governs_of_switched {uid gid : UInt32} {before c : Credentials}
    (h : Switched uid gid before c) (noRoot : Bool) (file : Executable) :
    Governs uid gid (c.execve noRoot file) := by
  constructor
  · exact ⟨h.uids.1, h.gids.1, h.groups⟩
  · intro hzero acts
    obtain ⟨hambient, hinheritable, hpermitted, heffective, hnew⟩ := h.unprivileged hzero
    have hstart : c.Unprivileged uid gid [] :=
      ⟨h.uids, h.gids, h.groups, ⟨hambient, hinheritable, hpermitted, heffective⟩, hnew⟩
    exact (hstart.execve noRoot file).acts hzero acts

/-- `if let Some(value) = value { action(value)?; }`, and then the state. -/
theorem option_then_get {ε σ ι : Type} {action : ι → EStateM ε σ Unit} {value : Option ι}
    {s s' exec : σ}
    (h : (do
      forEachAction action value.toList
      get : EStateM ε σ σ) s = .ok exec s') :
    match value with
    | none => exec = s
    | some a => action a s = .ok () exec := by
  obtain ⟨_, middle, hloop, hget⟩ := (action_bind_eq_ok _ _ _ _ _).mp h
  cases hget
  cases value with
  | none =>
    cases hloop
    rfl
  | some a =>
    obtain ⟨_, last, hone, hrest⟩ := (action_bind_eq_ok _ _ _ _ _).mp hloop
    cases hrest
    exact hone

theorem preExec_ok {denied : CredentialCall → Bool} {setpgid : Bool} {user : Option NumericUser}
    {campd exec after : Credentials} (h : preExec denied setpgid user campd = .ok exec after) :
    match user with
    | none => exec = campd
    | some user => applyMainIdentity denied user campd = .ok () exec := by
  obtain ⟨_, start, hgroup, hrun⟩ := (action_bind_eq_ok _ _ _ _ _).mp h
  obtain ⟨-, rfl⟩ := (reading_eq_ok _ _ _ _).mp hgroup
  have hexec := option_then_get hrun
  cases user with
  | none => exact hexec
  | some user => exact hexec

/-- What an identity that may be missing means for a command: root without it. -/
def GovernsOption {ι : Type} (uid gid : ι → UInt32) (identity : Option ι)
    (command : Credentials) : Prop :=
  identity.elim (Governs 0 0 command) fun id => Governs (uid id) (gid id) command

theorem main_governed {campd command : Credentials} {user : Option NumericUser}
    {file : Executable} (hroot : RootAlone campd)
    (hids : ∀ id, user = some id → id.uid ≠ Credentials.keep ∧ id.gid ≠ Credentials.keep)
    (h : Spawns campd user file command) :
    GovernsOption NumericUser.uid NumericUser.gid user command := by
  obtain ⟨denied, setpgid, exec, after, noRoot, hrun, rfl⟩ := h
  have hexec := preExec_ok hrun
  cases user with
  | none =>
    obtain rfl : exec = campd := hexec
    exact hroot.governs noRoot file
  | some id =>
    have hswitch : applyMainIdentity denied id campd = .ok () exec := hexec
    rw [applyMainIdentity_root id hroot.eqs.1.2] at hswitch
    exact governs_of_switched
      (switchIdentity_ok hroot.eqs.1.2 (hids id rfl).1 (hids id rfl).2 hswitch) noRoot file

theorem sidecar_governed {campd sandrun command : Credentials} {identity : Option UserIdentity}
    {file : Executable} (hroot : RootAlone campd)
    (hids : ∀ id, identity = some id → id.uid ≠ Credentials.keep ∧ id.gid ≠ Credentials.keep)
    (hspawns : Spawns campd none .plain sandrun) (h : Replaces sandrun identity file command) :
    GovernsOption UserIdentity.uid UserIdentity.gid identity command := by
  obtain ⟨_, _, child, _, childNoRoot, hchild, rfl⟩ := hspawns
  obtain rfl : child = campd := preExec_ok hchild
  have hsandrun := hroot.plain childNoRoot
  obtain ⟨denied, exec, after, noRoot, hrun, rfl⟩ := h
  have hexec := option_then_get hrun
  cases identity with
  | none =>
    have hsame : exec = _ := hexec
    rw [hsame]
    exact hsandrun.governs noRoot file
  | some id =>
    have hswitch : applyIdentity denied id _ = .ok () exec := hexec
    exact governs_of_switched
      (switchIdentity_ok hsandrun.eqs.1.2 (hids id rfl).1 (hids id rfl).2 hswitch) noRoot file

/-- Whoever the image runs as and whatever the kernel refuses on the way: campd is root alone,
and every command is the user its declaration gives it and no other, for good where that is not
root. -/
structure Governed (campd : Credentials) : Prop where
  bootstrapped : RootAlone campd
  main : ∀ (decoders : Campd.Decoders) payload spec file launch process user program command,
    Campd.decode decoders payload = .ok spec → flatten file spec = .ok launch →
    process ∈ launch → process.source = .main user → Spawns campd user program command →
    GovernsOption NumericUser.uid NumericUser.gid user command
  sidecar : ∀ host tree rootfs user identity sandrun program command,
    resolveIdentity host tree rootfs user = .ok identity → Spawns campd none .plain sandrun →
    Replaces sandrun identity program command →
    GovernsOption UserIdentity.uid UserIdentity.gid identity command

theorem commands_governed (start campd : Credentials) (hboot : Boots start campd) :
    Governed campd := by
  obtain ⟨denied, nosuid, execFails, noRoot, pid, argv, args, hrun⟩ := hboot
  have hroot : RootAlone campd := launcher_root ((modify_bind_ok _ _ _ _ _).mp hrun)
  constructor
  · exact hroot
  · intro decoders payload spec file launch process user program command hdecode hflatten hmem
      hsource hspawns
    refine main_governed hroot (fun id hid => ?_) hspawns
    have hwell := (Campd.validate_eq_ok spec).mp (Flattening.validate_of_decode hdecode)
    exact launched_ids hwell hflatten hmem (hid ▸ hsource)
  · intro host tree rootfs user identity sandrun program command hresolve hsandrun hreplaces
    refine sidecar_governed hroot (fun id hid => ?_) hsandrun hreplaces
    exact resolveIdentity_ids (hid ▸ hresolve)

/-- campd in the container of `imageUser`. -/
def bootedCampd : Credentials :=
  { rootProcess with
    groups := []
    ambient := 0
    inheritable := 0
    permitted := 0xA80425FB
    effective := 0xA80425FB
    bounding := 0xA80425FB }

theorem bootedCampd_boots : Boots imageUser bootedCampd := by
  refine ⟨fun _ => false, false, false, false, 1, some [lit "/mnt/sandcamp/bin/campd"],
    [target], ?_⟩
  refine (modify_bind_ok _ _ _ _ _).mpr (launcher_eq_ok.mpr ⟨⟨by decide, rfl, by decide⟩,
    by simp, rfl, rfl, _, _, _, rfl, rfl, rfl, by decide⟩)

theorem commands_governed_user : Governed bootedCampd ∧
    (∃ command, Spawns bootedCampd (some ⟨33, 33⟩) .plain command) ∧
    Spawns bootedCampd none .plain bootedCampd ∧
    ∃ command, Replaces bootedCampd (some ⟨33, 33⟩) .plain command := by
  refine ⟨commands_governed imageUser bootedCampd bootedCampd_boots, ?_, ?_, ?_⟩
  · obtain ⟨after, hswitch⟩ : ∃ after, applyMainIdentity (fun _ => false) ⟨33, 33⟩ bootedCampd =
        .ok () after := ⟨_, rfl⟩
    refine ⟨_, fun _ => false, true, after, after, false, ?_, rfl⟩
    exact (action_bind_eq_ok _ _ _ _ _).mpr ⟨(), bootedCampd, rfl,
      (action_bind_eq_ok _ _ _ _ _).mpr ⟨(), after,
        (action_bind_eq_ok _ _ _ _ _).mpr ⟨(), after, hswitch, rfl⟩, rfl⟩⟩
  · exact ⟨fun _ => false, true, bootedCampd, bootedCampd, false, rfl, by decide⟩
  · obtain ⟨after, hswitch⟩ : ∃ after, applyIdentity (fun _ => false) ⟨33, 33⟩ bootedCampd =
        .ok () after := ⟨_, rfl⟩
    refine ⟨_, fun _ => false, after, after, false, ?_, rfl⟩
    exact (action_bind_eq_ok _ _ _ _ _).mpr ⟨(), after,
      (action_bind_eq_ok _ _ _ _ _).mpr ⟨(), after, hswitch, rfl⟩, rfl⟩

end Sandcamp.Bootstrap
