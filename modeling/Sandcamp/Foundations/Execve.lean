import Sandcamp.Foundations.Credentials

/-!
# Programs that replace a process

What `execve` makes of the credentials of a process that nothing traces: the bits of the file, its
capabilities and the privileges of root, less what `no_new_privs` forbids. A process of one
unprivileged user that may gain no privilege keeps its identity through every call and program.
-/

namespace Foundations

structure FileCapabilities where
  permitted : UInt64
  inheritable : UInt64
  effective : Bool

/-- A program: its owner and its group where the bit is set, and whether its mount is `nosuid`. -/
structure Executable where
  setuid : Option UInt32
  setgid : Option UInt32
  capabilities : Option FileCapabilities
  nosuid : Bool

/-- A file without a bit and without a capability. -/
def Executable.plain : Executable := ⟨none, none, none, false⟩

def Executable.attached (file : Executable) : Option FileCapabilities :=
  if file.nosuid then none else file.capabilities

namespace Credentials

/-- The effective ids that the bits of the file ask for (`bprm_fill_uid`). -/
def claimed (c : Credentials) (file : Executable) : UInt32 × UInt32 :=
  if file.nosuid || c.noNewPrivs then (c.euid, c.egid)
  else (file.setuid.getD c.euid, file.setgid.getD c.egid)

/-- The permitted set under an effective user, and whether it becomes the effective one. -/
def granted (noRoot : Bool) (c : Credentials) (file : Executable) (euid : UInt32) :
    UInt64 × Bool :=
  let own := match file.attached with
    | some caps =>
      ((c.bounding &&& caps.permitted) ||| (c.inheritable &&& caps.inheritable), caps.effective)
    | none => (0, false)
  -- a setuid root program with capabilities of its own has only these
  if noRoot || (file.attached.isSome && c.ruid ≠ 0 && euid = 0) then own
  else (if c.ruid = 0 ∨ euid = 0 then c.bounding ||| c.inheritable else own.1, euid = 0 || own.2)

/-- What the file and the user would give, before `no_new_privs` is asked. -/
def gains (noRoot : Bool) (c : Credentials) (file : Executable) : Bool :=
  (c.claimed file).1 ≠ c.ruid || (c.claimed file).2 ≠ c.rgid ||
    !decide (Subset (c.granted noRoot file (c.claimed file).1).1 c.permitted)

/-- The ids and the permitted set that are left of it. -/
def allowed (noRoot : Bool) (c : Credentials) (file : Executable) : UInt32 × UInt32 × UInt64 :=
  let permitted := (c.granted noRoot file (c.claimed file).1).1
  if c.gains noRoot file && c.noNewPrivs then (c.ruid, c.rgid, permitted &&& c.permitted)
  else ((c.claimed file).1, (c.claimed file).2, permitted)

/-- A change of ids and capabilities of the file end the ambient set. -/
def ambientAfter (c : Credentials) (file : Executable) : UInt64 :=
  if file.attached.isSome || (c.claimed file).1 ≠ c.ruid || (c.claimed file).2 ≠ c.rgid then 0
  else c.ambient

/-- `execve` (`cap_bprm_creds_from_file`); `noRoot` is `SECBIT_NOROOT`. -/
def execve (noRoot : Bool) (file : Executable) (c : Credentials) : Credentials :=
  let (euid, egid, allowed) := c.allowed noRoot file
  let permitted := allowed ||| c.ambientAfter file
  { c with
    euid := euid
    suid := euid
    fsuid := euid
    egid := egid
    sgid := egid
    fsgid := egid
    ambient := c.ambientAfter file
    permitted := permitted
    effective := if (c.granted noRoot file (c.claimed file).1).2 then permitted
      else c.ambientAfter file
    keepCaps := false }

/-! ### A program without bits -/

/-- One user and one group, which `execve` of a plain file leaves. -/
theorem execve_plain (noRoot : Bool) (c : Credentials) (huid : c.euid = c.ruid)
    (hgid : c.egid = c.rgid) :
    (c.execve noRoot .plain).ids = [c.ruid, c.ruid, c.ruid, c.rgid, c.rgid, c.rgid] ∧
      (c.execve noRoot .plain).groups = c.groups := by
  have hclaimed : c.claimed .plain = (c.ruid, c.rgid) := by
    simp [claimed, Executable.plain, huid, hgid]
  have hallowed : ∃ permitted, c.allowed noRoot .plain = (c.ruid, c.rgid, permitted) := by
    unfold allowed
    rw [hclaimed]
    by_cases hgains : (c.gains noRoot .plain && c.noNewPrivs) = true
    · exact ⟨_, if_pos hgains⟩
    · exact ⟨_, if_neg hgains⟩
  obtain ⟨permitted, hallowed⟩ := hallowed
  simp [execve, hallowed, ids]

/-! ### A process that can gain nothing -/

/-- One user and one group, no capability, and none to be gained by a program. -/
structure Unprivileged (uid gid : UInt32) (groups : List UInt32) (c : Credentials) : Prop where
  uids : c.ruid = uid ∧ c.euid = uid ∧ c.suid = uid
  gids : c.rgid = gid ∧ c.egid = gid ∧ c.sgid = gid
  groups : c.groups = groups
  capabilities : c.ambient = 0 ∧ c.inheritable = 0 ∧ c.permitted = 0 ∧ c.effective = 0
  noNewPrivs : c.noNewPrivs = true

/-- It also reaches files as this user and this group. -/
structure Settled (uid gid : UInt32) (groups : List UInt32) (c : Credentials) : Prop
    extends Unprivileged uid gid groups c where
  fsids : c.fsuid = uid ∧ c.fsgid = gid

section Settled

variable {uid gid : UInt32} {groups : List UInt32} {c c' : Credentials}

theorem subset_zero {a : UInt64} (h : Subset a 0) : a = 0 := by
  have hand : a &&& 0 = a := h
  rw [← hand]
  exact UInt64.and_zero

theorem Unprivileged.incapable (h : Unprivileged uid gid groups c) (capability : ℕ) :
    c.capable capability = false := by
  simp [capable, h.capabilities.2.2.2]

/-- A program gains nothing that `no_new_privs` does not take away. -/
theorem Unprivileged.allowed (h : Unprivileged uid gid groups c) (noRoot : Bool)
    (file : Executable) : c.allowed noRoot file = (uid, gid, 0) := by
  have hclaimed : c.claimed file = (uid, gid) := by
    simp [claimed, h.noNewPrivs, h.uids.2.1, h.gids.2.1]
  unfold Credentials.allowed
  rw [hclaimed, h.noNewPrivs, Bool.and_true, h.uids.1, h.gids.1, h.capabilities.2.2.1]
  by_cases hgains : c.gains noRoot file = true
  · rw [if_pos hgains]
    simp
  · rw [if_neg hgains]
    have hsubset : Subset (c.granted noRoot file uid).1 0 := by
      simpa [gains, hclaimed, h.uids.1, h.gids.1, h.capabilities.2.2.1] using hgains
    rw [subset_zero hsubset]

theorem Unprivileged.execve (h : Unprivileged uid gid groups c) (noRoot : Bool)
    (file : Executable) : Settled uid gid groups (c.execve noRoot file) := by
  have hambient : c.ambientAfter file = 0 := by
    simp [ambientAfter, h.capabilities.1]
  unfold Credentials.execve
  rw [h.allowed noRoot file, hambient]
  exact ⟨⟨⟨h.uids.1, rfl, rfl⟩, ⟨h.gids.1, rfl, rfl⟩, h.groups,
    ⟨rfl, h.capabilities.2.1, by simp, by simp⟩, h.noNewPrivs⟩, rfl, rfl⟩

/-- An id that takes no privilege is the one there is. -/
theorem chosen_of_not_foreign {id own : UInt32} (h : foreign id own own own = false) :
    chosen id own = own := by
  simp only [foreign, chosen, ne_eq, Bool.and_eq_false_iff, decide_eq_false_iff_not,
    not_not] at h ⊢
  grind

theorem Settled.setResGid (h : Settled uid gid groups c) {r e s : UInt32}
    (hcall : c.setResGid r e s = some c') : Settled uid gid groups c' := by
  unfold Credentials.setResGid at hcall
  rw [h.incapable, h.gids.1, h.gids.2.1, h.gids.2.2] at hcall
  split_ifs at hcall with hforeign
  simp only [Bool.not_false, Bool.and_true, Bool.or_eq_true, not_or, Bool.not_eq_true] at hforeign
  obtain ⟨⟨hr, he⟩, hs⟩ := hforeign
  rw [chosen_of_not_foreign hr, chosen_of_not_foreign he, chosen_of_not_foreign hs] at hcall
  obtain rfl := Option.some.inj hcall
  exact ⟨⟨h.uids, ⟨rfl, rfl, rfl⟩, h.groups, h.capabilities, h.noNewPrivs⟩, h.fsids.1, rfl⟩

theorem Settled.setResUid (h : Settled uid gid groups c) (hzero : uid ≠ 0) {r e s : UInt32}
    (hcall : c.setResUid r e s = some c') : Settled uid gid groups c' := by
  unfold Credentials.setResUid at hcall
  rw [h.incapable, h.uids.1, h.uids.2.1, h.uids.2.2] at hcall
  split_ifs at hcall with hforeign
  simp only [Bool.not_false, Bool.and_true, Bool.or_eq_true, not_or, Bool.not_eq_true] at hforeign
  obtain ⟨⟨hr, he⟩, hs⟩ := hforeign
  rw [chosen_of_not_foreign hr, chosen_of_not_foreign he, chosen_of_not_foreign hs] at hcall
  -- no id was root and none is now, so the capability sets are as they were
  have hfixed : ∀ new : Credentials, new.euid = uid → fixCapabilities c new = new := by
    intro new hnew
    simp [fixCapabilities, h.uids.1, h.uids.2.1, h.uids.2.2, hnew, hzero]
  rw [hfixed _ rfl] at hcall
  obtain rfl := Option.some.inj hcall
  exact ⟨⟨⟨rfl, rfl, rfl⟩, h.gids, h.groups, h.capabilities, h.noNewPrivs⟩, rfl, h.fsids.2⟩

theorem Settled.capSet (h : Settled uid gid groups c) {effective permitted inheritable : UInt64}
    (hcall : c.capSet effective permitted inheritable = some c') : Settled uid gid groups c' := by
  unfold Credentials.capSet at hcall
  rw [h.incapable, h.capabilities.1, h.capabilities.2.1, h.capabilities.2.2.1] at hcall
  by_cases hexceeds : (¬false = true ∧ ¬Subset inheritable (0 ||| 0)) ∨
      ¬Subset inheritable (0 ||| c.bounding) ∨ ¬Subset permitted 0 ∨ ¬Subset effective permitted
  · rw [if_pos hexceeds] at hcall
    cases hcall
  rw [if_neg hexceeds] at hcall
  simp only [Bool.false_eq_true, not_false_iff, true_and, not_or, not_not, UInt64.or_zero]
    at hexceeds
  obtain ⟨hinheritable, -, hpermitted, heffective⟩ := hexceeds
  obtain rfl := subset_zero hinheritable
  obtain rfl := subset_zero hpermitted
  obtain rfl := subset_zero heffective
  obtain rfl := Option.some.inj hcall
  exact ⟨⟨h.uids, h.gids, h.groups, ⟨by simp, rfl, rfl, rfl⟩, h.noNewPrivs⟩, h.fsids⟩

theorem Settled.perform (h : Settled uid gid groups c) (hzero : uid ≠ 0) (call : CredentialCall)
    (hcall : c.perform call = some c') : Settled uid gid groups c' := by
  cases call with
  | clearAmbient =>
    obtain rfl := Option.some.inj hcall
    exact ⟨⟨h.uids, h.gids, h.groups, ⟨rfl, h.capabilities.2⟩, h.noNewPrivs⟩, h.fsids⟩
  | setGroups other =>
    simp [Credentials.perform, setGroups, h.incapable] at hcall
  | setResGid r e s => exact h.setResGid hcall
  | setResUid r e s => exact h.setResUid hzero hcall
  | capSet effective permitted inheritable => exact h.capSet hcall
  | setNoNewPrivs =>
    obtain rfl := Option.some.inj hcall
    exact ⟨⟨h.uids, h.gids, h.groups, h.capabilities, rfl⟩, h.fsids⟩

end Settled

end Credentials

/-! ### Whole runs -/

/-- What the programs of a process do to its credentials. -/
inductive CredentialAct where
  | call (call : CredentialCall)
  | exec (noRoot : Bool) (file : Executable)

/-- One act; a call that is refused changes nothing. -/
def Credentials.act (c : Credentials) : CredentialAct → Credentials
  | .call call => (c.perform call).getD c
  | .exec noRoot file => c.execve noRoot file

/-- The credentials after any acts, its children's included: a child starts with a copy. -/
def Credentials.acts (c : Credentials) (acts : List CredentialAct) : Credentials :=
  acts.foldl Credentials.act c

theorem Credentials.Settled.act {uid gid : UInt32} {groups : List UInt32} {c : Credentials}
    (h : c.Settled uid gid groups) (hzero : uid ≠ 0) (act : CredentialAct) :
    (c.act act).Settled uid gid groups := by
  cases act with
  | call call =>
    cases hcall : c.perform call with
    | none =>
      rw [Credentials.act, hcall]
      exact h
    | some c' =>
      rw [Credentials.act, hcall]
      exact h.perform hzero call hcall
  | exec noRoot file => exact h.execve noRoot file

/-- No program that an unprivileged process becomes has another identity or a capability. -/
theorem Credentials.Settled.acts {uid gid : UInt32} {groups : List UInt32} {c : Credentials}
    (h : c.Settled uid gid groups) (hzero : uid ≠ 0) (acts : List CredentialAct) :
    (c.acts acts).Settled uid gid groups := by
  induction acts generalizing c with
  | nil => exact h
  | cons act rest ih => exact ih (h.act hzero act)

end Foundations
