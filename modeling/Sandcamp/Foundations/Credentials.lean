import Sandcamp.Foundations.Actions

/-!
# Credentials of a Linux process

The ids, groups and capability sets of a process, and the calls that change them. A call
is refused by the kernel where the process lacks the privilege, or from outside (a
filter, a security module, a limit): the argument `denied` is any such pattern. A refused
call changes nothing.
-/

namespace Foundations

structure Credentials where
  ruid : UInt32
  euid : UInt32
  suid : UInt32
  fsuid : UInt32
  rgid : UInt32
  egid : UInt32
  sgid : UInt32
  fsgid : UInt32
  groups : List UInt32
  ambient : UInt64
  inheritable : UInt64
  permitted : UInt64
  effective : UInt64
  bounding : UInt64
  noNewPrivs : Bool
  /-- `SECBIT_KEEP_CAPS` and `SECBIT_NO_SETUID_FIXUP`. -/
  keepCaps : Bool
  noSetuidFixup : Bool
  deriving DecidableEq

inductive CredentialCall where
  | clearAmbient
  | setGroups (groups : List UInt32)
  | setResGid (rgid egid sgid : UInt32)
  | setResUid (ruid euid suid : UInt32)
  | capSet (effective permitted inheritable : UInt64)
  | setNoNewPrivs
  deriving DecidableEq

namespace Credentials

/-- The id that leaves an id as it is. -/
def keep : UInt32 := 0xFFFFFFFF

def chosen (id old : UInt32) : UInt32 := if id = keep then old else id

theorem chosen_of_ne {id : UInt32} (old : UInt32) (h : id ≠ keep) : chosen id old = id :=
  if_neg h

def capSetGid : ℕ := 6
def capSetUid : ℕ := 7
def capSetPcap : ℕ := 8

def capable (c : Credentials) (capability : ℕ) : Bool := c.effective.toNat.testBit capability

def Subset (a b : UInt64) : Prop := a &&& b = a

instance (a b : UInt64) : Decidable (Subset a b) := inferInstanceAs (Decidable (a &&& b = a))

/-- An id that takes a privilege to assume: none of the three the process has. -/
def foreign (id real effective saved : UInt32) : Bool :=
  id ≠ keep && id ≠ real && id ≠ effective && id ≠ saved

/-- What changing the user ids does to the capability sets (`cap_emulate_setxuid`). -/
def fixCapabilities (old new : Credentials) : Credentials :=
  if old.noSetuidFixup then new
  else
    let new :=
      if (old.ruid = 0 ∨ old.euid = 0 ∨ old.suid = 0) ∧
          new.ruid ≠ 0 ∧ new.euid ≠ 0 ∧ new.suid ≠ 0 then
        if new.keepCaps then { new with ambient := 0 }
        else { new with permitted := 0, effective := 0, ambient := 0 }
      else new
    let new := if old.euid = 0 ∧ new.euid ≠ 0 then { new with effective := 0 } else new
    if old.euid ≠ 0 ∧ new.euid = 0 then { new with effective := new.permitted } else new

def setResUid (c : Credentials) (ruid euid suid : UInt32) : Option Credentials :=
  if (foreign ruid c.ruid c.euid c.suid || foreign euid c.ruid c.euid c.suid ||
      foreign suid c.ruid c.euid c.suid) && !c.capable capSetUid then none
  else some (fixCapabilities c { c with
    ruid := chosen ruid c.ruid
    euid := chosen euid c.euid
    suid := chosen suid c.suid
    fsuid := chosen euid c.euid })

def setResGid (c : Credentials) (rgid egid sgid : UInt32) : Option Credentials :=
  if (foreign rgid c.rgid c.egid c.sgid || foreign egid c.rgid c.egid c.sgid ||
      foreign sgid c.rgid c.egid c.sgid) && !c.capable capSetGid then none
  else some { c with
    rgid := chosen rgid c.rgid
    egid := chosen egid c.egid
    sgid := chosen sgid c.sgid
    fsgid := chosen egid c.egid }

def setGroups (c : Credentials) (groups : List UInt32) : Option Credentials :=
  if c.capable capSetGid then some { c with groups := groups } else none

/-- No capability is gained, and an ambient one stays only while it is permitted and
inheritable. -/
def capSet (c : Credentials) (effective permitted inheritable : UInt64) : Option Credentials :=
  if (¬c.capable capSetPcap ∧ ¬Subset inheritable (c.inheritable ||| c.permitted)) ∨
      ¬Subset inheritable (c.inheritable ||| c.bounding) ∨
      ¬Subset permitted c.permitted ∨ ¬Subset effective permitted then none
  else some { c with
    effective := effective
    permitted := permitted
    inheritable := inheritable
    ambient := c.ambient &&& (permitted &&& inheritable) }

def perform (c : Credentials) : CredentialCall → Option Credentials
  | .clearAmbient => some { c with ambient := 0 }
  | .setGroups groups => c.setGroups groups
  | .setResGid rgid egid sgid => c.setResGid rgid egid sgid
  | .setResUid ruid euid suid => c.setResUid ruid euid suid
  | .capSet effective permitted inheritable => c.capSet effective permitted inheritable
  | .setNoNewPrivs => some { c with noNewPrivs := true }

/-! ### What a call leaves -/

/-- The ids of a process. -/
def ids (c : Credentials) : List UInt32 := [c.ruid, c.euid, c.suid, c.rgid, c.egid, c.sgid]

/-- Its capability sets, and whether it can gain privileges. -/
def privileges (c : Credentials) : List UInt64 × Bool :=
  ([c.ambient, c.inheritable, c.permitted, c.effective], c.noNewPrivs)

theorem fixCapabilities_ids (old new : Credentials) :
    (fixCapabilities old new).ids = new.ids ∧ (fixCapabilities old new).groups = new.groups := by
  unfold fixCapabilities
  dsimp only
  split_ifs <;> exact ⟨rfl, rfl⟩

theorem fixCapabilities_root (old new : Credentials) (hold : old.euid = 0) (hnew : new.euid = 0) :
    fixCapabilities old new = new := by
  unfold fixCapabilities
  simp [hold, hnew]

theorem setResUid_ids (c c' : Credentials) (uid : UInt32) (hkeep : uid ≠ keep)
    (h : c.setResUid uid uid uid = some c') :
    c'.ids = [uid, uid, uid, c.rgid, c.egid, c.sgid] ∧ c'.groups = c.groups := by
  unfold setResUid at h
  split_ifs at h
  obtain rfl := Option.some.inj h
  obtain ⟨hids, hgroups⟩ := fixCapabilities_ids c { c with
    ruid := chosen uid c.ruid
    euid := chosen uid c.euid
    suid := chosen uid c.suid
    fsuid := chosen uid c.euid }
  rw [hids, hgroups]
  simp only [ids, chosen_of_ne _ hkeep]
  exact ⟨trivial, trivial⟩

theorem setResUid_root (c c' : Credentials) (hroot : c.euid = 0)
    (h : c.setResUid 0 0 0 = some c') : c'.privileges = c.privileges := by
  unfold setResUid at h
  split_ifs at h
  obtain rfl := Option.some.inj h
  have hzero : chosen 0 c.euid = 0 := chosen_of_ne _ (by decide)
  rw [fixCapabilities_root c _ hroot hzero]
  rfl

theorem setResGid_ids (c c' : Credentials) (gid : UInt32) (hkeep : gid ≠ keep)
    (h : c.setResGid gid gid gid = some c') :
    c'.ids = [c.ruid, c.euid, c.suid, gid, gid, gid] ∧ c'.groups = c.groups ∧
      c'.privileges = c.privileges := by
  unfold setResGid at h
  split_ifs at h
  obtain rfl := Option.some.inj h
  simp only [ids, privileges, chosen_of_ne _ hkeep]
  exact ⟨trivial, trivial, trivial⟩

theorem setGroups_groups (c c' : Credentials) (groups : List UInt32)
    (h : c.setGroups groups = some c') :
    c'.groups = groups ∧ c'.ids = c.ids ∧ c'.privileges = c.privileges := by
  unfold setGroups at h
  split_ifs at h
  obtain rfl := Option.some.inj h
  exact ⟨rfl, rfl, rfl⟩

theorem capSet_none (c c' : Credentials) (h : c.capSet 0 0 0 = some c') :
    c'.privileges = ([0, 0, 0, 0], c.noNewPrivs) ∧ c'.ids = c.ids ∧ c'.groups = c.groups := by
  unfold capSet at h
  split_ifs at h
  obtain rfl := Option.some.inj h
  refine ⟨?_, rfl, rfl⟩
  simp [privileges]

end Credentials

/-! ### Calls of a program -/

variable {ε : Type}

/-- A call that ends in `error` when it is refused. -/
def credentialCall (denied : CredentialCall → Bool) (error : ε) (call : CredentialCall) :
    EStateM ε Credentials Unit := fun c =>
  if denied call then .error error c
  else
    match c.perform call with
    | none => .error error c
    | some c' => .ok () c'

theorem credentialCall_eq_ok (denied : CredentialCall → Bool) (error : ε) (call : CredentialCall)
    (c c' : Credentials) (u : Unit) (h : credentialCall denied error call c = .ok u c') :
    c.perform call = some c' := by
  unfold credentialCall at h
  by_cases hdenied : denied call = true
  · rw [if_pos hdenied] at h
    cases h
  · rw [if_neg hdenied] at h
    cases hperform : c.perform call with
    | none =>
      rw [hperform] at h
      cases h
    | some next =>
      rw [hperform] at h
      cases h
      rfl

theorem credentialCall_ok_iff (denied : CredentialCall → Bool) (error : ε) (call : CredentialCall)
    (c c' : Credentials) : credentialCall denied error call c = .ok () c' ↔
      denied call = false ∧ c.perform call = some c' := by
  unfold credentialCall
  cases denied call with
  | true => simp
  | false => cases c.perform call <;> simp

end Foundations
