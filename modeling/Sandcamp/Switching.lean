import Sandcamp.Foundations.Credentials
import Sandcamp.Campd.Spec
import Sandcamp.Sandrun.Passwd

/-!
# Switching to the identity of a command (linux.rs:226-303, runtime.rs:859-911)

`apply_identity` and `apply_main_identity` make the same calls in the same order and give
up at the first that fails, so a command is started with the whole identity or not at
all. Groups and group ids come first, while the process still may change them; the
capability sets are emptied by an explicit call behind the change of the user ids,
whatever the kernel has dropped before.
-/

namespace Sandcamp.Switching
open Foundations
open Sandrun (UserIdentity RuntimeError)
open Campd (NumericUser)

/-! ### The two functions -/

/-- The calls of both functions, and their comparison at the end: `failed` is the error of a
call, `unverified` that of the comparison. -/
def switchIdentity {ε : Type} (denied : CredentialCall → Bool) (failed : CredentialCall → ε)
    (unverified : ε) (uid gid : UInt32) : EStateM ε Credentials Unit := do
  let call := fun request => credentialCall denied (failed request) request
  onlyIf (uid ≠ 0) (call .clearAmbient)
  call (.setGroups [])
  call (.setResGid gid gid gid)
  call (.setResUid uid uid uid)
  onlyIf (uid ≠ 0) do
    call (.capSet 0 0 0)
    call .setNoNewPrivs
  reading fun process => rejectIf
    (process.ruid ≠ uid ∨ process.euid ≠ uid ∨ process.rgid ≠ gid ∨ process.egid ≠ gid) unverified

/-- The name of the operation in the error of a call (`linux.rs:240-287`). -/
def operationFailed : CredentialCall → RuntimeError
  | .clearAmbient => .operation (lit "ambient_capabilities_clear_failed") none
  | .setGroups _ => .operation (lit "supplementary_groups_clear_failed") none
  | .setResGid .. => .operation (lit "setresgid_failed") none
  | .setResUid .. => .operation (lit "setresuid_failed") none
  | .capSet .. => .operation (lit "capabilities_clear_failed") none
  | .setNoNewPrivs => .operation (lit "no_new_privileges_failed") none

/-- `apply_identity` (`linux.rs:226-303`). -/
def applyIdentity (denied : CredentialCall → Bool) (identity : UserIdentity) :
    EStateM RuntimeError Credentials Unit :=
  switchIdentity denied operationFailed (.operation (lit "identity_verification_failed") none)
    identity.uid identity.gid

/-- `io::Error`: that of the last call, or one with a code of its own. -/
inductive IoError where
  | lastOsError
  | rawOsError (code : ℕ)
  deriving DecidableEq

def eperm : ℕ := 1

/-- `apply_main_identity` (`runtime.rs:859-911`). -/
def applyMainIdentity (denied : CredentialCall → Bool) (user : NumericUser) :
    EStateM IoError Credentials Unit := do
  reading fun process => rejectIf (process.euid ≠ 0) (.rawOsError eperm)
  switchIdentity denied (fun _ => .lastOsError) (.rawOsError eperm) user.uid user.gid

/-- The end of sandrun's `run` (`linux.rs:122-135`): the credentials the command gets. -/
def execCommand (denied : CredentialCall → Bool) (identity : Option UserIdentity) :
    EStateM RuntimeError Credentials Credentials := do
  forEachAction (applyIdentity denied) identity.toList
  get

/-- What campd's child does before its `exec` (`runtime.rs:262-272`): the credentials the
command gets. -/
def preExec (denied : CredentialCall → Bool) (setpgid : Bool) (user : Option NumericUser) :
    EStateM IoError Credentials Credentials := do
  reading fun _ => rejectIf (setpgid = false) .lastOsError
  forEachAction (applyMainIdentity denied) user.toList
  get

/-! ### All or nothing -/

/-- The whole identity, with nothing of the old one left but what root keeps. -/
structure Switched (uid gid : UInt32) (before after : Credentials) : Prop where
  uids : after.ruid = uid ∧ after.euid = uid ∧ after.suid = uid
  gids : after.rgid = gid ∧ after.egid = gid ∧ after.sgid = gid
  groups : after.groups = []
  unprivileged : uid ≠ 0 → after.ambient = 0 ∧ after.inheritable = 0 ∧ after.permitted = 0 ∧
    after.effective = 0 ∧ after.noNewPrivs = true
  root : uid = 0 → after.ambient = before.ambient ∧ after.inheritable = before.inheritable ∧
    after.permitted = before.permitted ∧ after.effective = before.effective ∧
    after.noNewPrivs = before.noNewPrivs

variable {ε : Type} {denied : CredentialCall → Bool} {failed : CredentialCall → ε}
  {unverified : ε} {uid gid : UInt32} {before after : Credentials}

theorem groups_then_ids {c c₁ c₂ c₃ : Credentials} (hgid : gid ≠ Credentials.keep)
    (huid : uid ≠ Credentials.keep) (hgroups : c.setGroups [] = some c₁)
    (hresgid : c₁.setResGid gid gid gid = some c₂) (hresuid : c₂.setResUid uid uid uid = some c₃) :
    c₃.ids = [uid, uid, uid, gid, gid, gid] ∧ c₃.groups = [] ∧
      c₂.privileges = c.privileges ∧ c₂.euid = c.euid := by
  obtain ⟨hgroups₁, hids₁, hprivileges₁⟩ := Credentials.setGroups_groups c c₁ [] hgroups
  obtain ⟨hids₂, hgroups₂, hprivileges₂⟩ := Credentials.setResGid_ids c₁ c₂ gid hgid hresgid
  obtain ⟨hids₃, hgroups₃⟩ := Credentials.setResUid_ids c₂ c₃ uid huid hresuid
  have hgids : c₂.rgid = gid ∧ c₂.egid = gid ∧ c₂.sgid = gid := by
    simp only [Credentials.ids, List.cons.injEq] at hids₂
    exact ⟨hids₂.2.2.2.1, hids₂.2.2.2.2.1, hids₂.2.2.2.2.2.1⟩
  have heuid : c₂.euid = c.euid := by
    simp only [Credentials.ids, List.cons.injEq] at hids₁ hids₂
    rw [hids₂.2.1, hids₁.2.1]
  refine ⟨?_, ?_, hprivileges₂.trans hprivileges₁, heuid⟩
  · rw [hids₃, hgids.1, hgids.2.1, hgids.2.2]
  · rw [hgroups₃, hgroups₂, hgroups₁]

theorem switchIdentity_ok (hroot : before.euid = 0) (huid : uid ≠ Credentials.keep)
    (hgid : gid ≠ Credentials.keep)
    (h : switchIdentity denied failed unverified uid gid before = .ok () after) :
    Switched uid gid before after := by
  unfold switchIdentity at h
  obtain ⟨_, c₀, hambient, h⟩ := (action_bind_eq_ok _ _ _ _ _).mp h
  obtain ⟨_, c₁, hgroups, h⟩ := (action_bind_eq_ok _ _ _ _ _).mp h
  obtain ⟨_, c₂, hresgid, h⟩ := (action_bind_eq_ok _ _ _ _ _).mp h
  obtain ⟨_, c₃, hresuid, h⟩ := (action_bind_eq_ok _ _ _ _ _).mp h
  obtain ⟨_, c₄, hdrop, h⟩ := (action_bind_eq_ok _ _ _ _ _).mp h
  obtain ⟨-, rfl⟩ := (reading_eq_ok _ _ _ _).mp h
  obtain ⟨hids, hempty, hprivileges, heuid⟩ := groups_then_ids hgid huid
    (credentialCall_eq_ok _ _ _ _ _ _ hgroups) (credentialCall_eq_ok _ _ _ _ _ _ hresgid)
    (credentialCall_eq_ok _ _ _ _ _ _ hresuid)
  unfold onlyIf at hambient hdrop
  by_cases hzero : uid = 0
  · rw [if_neg (not_not.mpr hzero)] at hambient hdrop
    cases hambient
    cases hdrop
    have hkept := Credentials.setResUid_root c₂ after (heuid.trans hroot)
      (hzero ▸ credentialCall_eq_ok _ _ _ _ _ _ hresuid)
    rw [hprivileges] at hkept
    simp only [Credentials.ids, List.cons.injEq, and_true] at hids
    simp only [Credentials.privileges, Prod.mk.injEq, List.cons.injEq, and_true] at hkept
    obtain ⟨hru, heu, hsu, hrg, heg, hsg⟩ := hids
    obtain ⟨⟨hamb, hinh, hper, heff⟩, hnnp⟩ := hkept
    exact ⟨⟨hru, heu, hsu⟩, ⟨hrg, heg, hsg⟩, hempty, fun hne => absurd hzero hne,
      fun _ => ⟨hamb, hinh, hper, heff, hnnp⟩⟩
  · rw [if_pos hzero] at hambient hdrop
    obtain ⟨_, c₅, hcapset, hnoNewPrivs⟩ := (action_bind_eq_ok _ _ _ _ _).mp hdrop
    obtain ⟨hnone, hids', hgroups'⟩ := Credentials.capSet_none c₃ c₅
      (credentialCall_eq_ok _ _ _ _ _ _ hcapset)
    obtain rfl := Option.some.inj (credentialCall_eq_ok _ _ _ _ _ _ hnoNewPrivs)
    rw [hids] at hids'
    rw [hempty] at hgroups'
    simp only [Credentials.ids, List.cons.injEq, and_true] at hids'
    simp only [Credentials.privileges, Prod.mk.injEq, List.cons.injEq, and_true] at hnone
    obtain ⟨hru, heu, hsu, hrg, heg, hsg⟩ := hids'
    obtain ⟨⟨hamb, hinh, hper, heff⟩, -⟩ := hnone
    exact ⟨⟨hru, heu, hsu⟩, ⟨hrg, heg, hsg⟩, hgroups',
      fun _ => ⟨hamb, hinh, hper, heff, rfl⟩, fun heq => absurd heq hzero⟩

/-! ### The two copies -/

/-- Two actions that differ in their errors only. -/
def SameRun {ε' σ α : Type} (x : EStateM ε σ α) (y : EStateM ε' σ α) : Prop :=
  ∀ s, (∃ a s', x s = .ok a s' ∧ y s = .ok a s') ∨
    ∃ e e' s', x s = .error e s' ∧ y s = .error e' s'

section SameRun

variable {ε' σ α β : Type}

theorem sameRun_bind {x : EStateM ε σ α} {y : EStateM ε' σ α} {f : α → EStateM ε σ β}
    {g : α → EStateM ε' σ β} (hxy : SameRun x y) (hfg : ∀ a, SameRun (f a) (g a)) :
    SameRun (x >>= f) (y >>= g) := by
  intro s
  have hx : (x >>= f) s = EStateM.bind x f s := rfl
  have hy : (y >>= g) s = EStateM.bind y g s := rfl
  rw [hx, hy]
  unfold EStateM.bind
  rcases hxy s with ⟨a, s', hok, hok'⟩ | ⟨e, e', s', herror, herror'⟩
  · rw [hok, hok']
    exact hfg a s'
  · rw [herror, herror']
    exact Or.inr ⟨e, e', s', rfl, rfl⟩

theorem sameRun_pure (a : α) : SameRun (pure a : EStateM ε σ α) (pure a : EStateM ε' σ α) :=
  fun s => Or.inl ⟨a, s, rfl, rfl⟩

theorem sameRun_onlyIf (c : Prop) [Decidable c] {x : EStateM ε σ Unit} {y : EStateM ε' σ Unit}
    (h : SameRun x y) : SameRun (onlyIf c x) (onlyIf c y) := by
  unfold onlyIf
  by_cases hc : c
  · rw [if_pos hc, if_pos hc]
    exact h
  · rw [if_neg hc, if_neg hc]
    exact sameRun_pure ()

theorem sameRun_reading_rejectIf (c : σ → Prop) [DecidablePred c] (e : ε) (e' : ε') :
    SameRun (reading fun s => rejectIf (c s) e) (reading fun s => rejectIf (c s) e') := by
  intro s
  unfold reading rejectIf
  by_cases hc : c s
  · simp only [if_pos hc]
    exact Or.inr ⟨e, e', s, rfl, rfl⟩
  · simp only [if_neg hc]
    exact Or.inl ⟨(), s, rfl, rfl⟩

end SameRun

theorem sameRun_call {ε' : Type} (denied : CredentialCall → Bool) (call : CredentialCall) (e : ε)
    (e' : ε') : SameRun (credentialCall denied e call) (credentialCall denied e' call) := by
  intro c
  unfold credentialCall
  by_cases hdenied : denied call = true
  · rw [if_pos hdenied, if_pos hdenied]
    exact Or.inr ⟨e, e', c, rfl, rfl⟩
  · rw [if_neg hdenied, if_neg hdenied]
    cases c.perform call with
    | none => exact Or.inr ⟨e, e', c, rfl, rfl⟩
    | some c' => exact Or.inl ⟨(), c', rfl, rfl⟩

theorem switchIdentity_sameRun {ε' : Type} (failed' : CredentialCall → ε') (unverified' : ε') :
    SameRun (switchIdentity denied failed unverified uid gid)
      (switchIdentity denied failed' unverified' uid gid) := by
  unfold switchIdentity
  apply sameRun_bind
  · exact sameRun_onlyIf _ (sameRun_call _ _ _ _)
  intro _
  apply sameRun_bind (sameRun_call _ _ _ _)
  intro _
  apply sameRun_bind (sameRun_call _ _ _ _)
  intro _
  apply sameRun_bind (sameRun_call _ _ _ _)
  intro _
  apply sameRun_bind
  · exact sameRun_onlyIf _ (sameRun_bind (sameRun_call _ _ _ _) fun _ => sameRun_call _ _ _ _)
  intro _
  exact sameRun_reading_rejectIf _ _ _

theorem applyMainIdentity_root (user : NumericUser) (hroot : before.euid = 0) :
    applyMainIdentity denied user before =
      switchIdentity denied (fun _ => .lastOsError) (.rawOsError eperm) user.uid user.gid
        before := by
  have hpass : reading (fun process : Credentials =>
      rejectIf (process.euid ≠ 0) (IoError.rawOsError eperm)) before = .ok () before := by
    rw [reading_eq_ok, rejectIf_eq_ok]
    exact ⟨not_not.mpr hroot, rfl⟩
  show EStateM.bind _ _ before = _
  unfold EStateM.bind
  rw [hpass]

/-- What the two functions and the commands behind them promise for one identity. -/
structure Switches (denied : CredentialCall → Bool) (uid gid : UInt32) (before : Credentials) :
    Prop where
  sandrun : ∀ after, applyIdentity denied ⟨uid, gid⟩ before = .ok () after →
    Switched uid gid before after
  main : ∀ after, applyMainIdentity denied ⟨uid, gid⟩ before = .ok () after →
    Switched uid gid before after
  same : (∃ after, applyIdentity denied ⟨uid, gid⟩ before = .ok () after ∧
      applyMainIdentity denied ⟨uid, gid⟩ before = .ok () after) ∨
    ∃ e e' after, applyIdentity denied ⟨uid, gid⟩ before = .error e after ∧
      applyMainIdentity denied ⟨uid, gid⟩ before = .error e' after
  sandrunExec : ∀ exec after, execCommand denied (some ⟨uid, gid⟩) before = .ok exec after →
    Switched uid gid before exec
  mainExec : ∀ setpgid exec after, preExec denied setpgid (some ⟨uid, gid⟩) before =
    .ok exec after → Switched uid gid before exec

/-- From root, whatever fails: the whole identity or an error, the same in both functions, and
no command runs with part of it. -/
theorem identity_switches (denied : CredentialCall → Bool) (uid gid : UInt32)
    (before : Credentials) (hroot : before.euid = 0) (huid : uid ≠ 0xFFFFFFFF)
    (hgid : gid ≠ 0xFFFFFFFF) : Switches denied uid gid before := by
  have hsandrun : ∀ after, applyIdentity denied ⟨uid, gid⟩ before = .ok () after →
      Switched uid gid before after := fun after h => switchIdentity_ok hroot huid hgid h
  have hmain : ∀ after, applyMainIdentity denied ⟨uid, gid⟩ before = .ok () after →
      Switched uid gid before after := by
    intro after h
    rw [applyMainIdentity_root ⟨uid, gid⟩ hroot] at h
    exact switchIdentity_ok hroot huid hgid h
  constructor
  · exact hsandrun
  · exact hmain
  · rw [applyMainIdentity_root ⟨uid, gid⟩ hroot]
    have hrun : SameRun (applyIdentity denied ⟨uid, gid⟩)
        (switchIdentity denied (fun _ => IoError.lastOsError) (.rawOsError eperm) uid gid) :=
      switchIdentity_sameRun _ _
    rcases hrun before with ⟨_, after, hok, hok'⟩ | herror
    · exact Or.inl ⟨after, hok, hok'⟩
    · exact Or.inr herror
  · intro exec after h
    obtain ⟨_, middle, hswitch, hget⟩ := (action_bind_eq_ok _ _ _ _ _).mp h
    obtain ⟨_, switched, hone, hrest⟩ := (action_bind_eq_ok _ _ _ _ _).mp hswitch
    cases hrest
    cases hget
    exact hsandrun _ hone
  · intro setpgid exec after h
    obtain ⟨_, start, hgroup, hrun⟩ := (action_bind_eq_ok _ _ _ _ _).mp h
    obtain ⟨-, rfl⟩ := (reading_eq_ok _ _ _ _).mp hgroup
    obtain ⟨_, middle, hswitch, hget⟩ := (action_bind_eq_ok _ _ _ _ _).mp hrun
    obtain ⟨_, switched, hone, hrest⟩ := (action_bind_eq_ok _ _ _ _ _).mp hswitch
    cases hrest
    cases hget
    exact hmain _ hone

/-- Root with every capability and two more groups. -/
def rootProcess : Credentials where
  ruid := 0
  euid := 0
  suid := 0
  fsuid := 0
  rgid := 0
  egid := 0
  sgid := 0
  fsgid := 0
  groups := [4, 27]
  ambient := 1
  inheritable := 1
  permitted := 0x1FFFFFFFFFF
  effective := 0x1FFFFFFFFFF
  bounding := 0x1FFFFFFFFFF
  noNewPrivs := false
  keepCaps := false
  noSetuidFixup := false

theorem identity_switches_www : Switches (fun _ => false) 33 33 rootProcess ∧
    ∃ after, applyIdentity (fun _ => false) ⟨33, 33⟩ rootProcess = .ok () after :=
  ⟨identity_switches (fun _ => false) 33 33 rootProcess rfl (by decide) (by decide), _, rfl⟩

end Sandcamp.Switching
