import Sandcamp.Sandrun.Workspaces

/-!
# The directories under the overlay base (linux.rs:376-418, 840-849)

A workspace is named by the digest of an overlay id and a rootfs, a directory behind a disk
mount by the digest of these and the target. The identities are injective and so is the
hexadecimal form of a digest, so that two identities share a directory only where SHA-256
gives them one digest.
-/

namespace Sandcamp.Sandrun
open Foundations

variable {sha256 : Bytes → Bytes} {base : Position}

/-- Two inputs of one digest. -/
def Collision (sha256 : Bytes → Bytes) (first second : Bytes) : Prop :=
  first ≠ second ∧ sha256 first = sha256 second

theorem workspaceOf_eq_iff (id id' lower lower' : Bytes) :
    workspaceOf sha256 base id lower = workspaceOf sha256 base id' lower' ↔
      sha256 (overlayIdentity id lower) = sha256 (overlayIdentity id' lower') := by
  constructor
  · intro h
    have hname := List.append_cancel_left h
    exact hexLower_injective (List.singleton_inj.mp hname)
  · intro h
    rw [workspaceOf, workspaceOf, h]

theorem diskMountSource_eq_iff (id id' lower lower' target target' : Bytes) :
    diskMountSource sha256 base id lower target = diskMountSource sha256 base id' lower' target' ↔
      sha256 (diskMountIdentity id lower target) =
        sha256 (diskMountIdentity id' lower' target') := by
  constructor
  · intro h
    have hname := List.append_cancel_left h
    exact hexLower_injective (List.singleton_inj.mp hname)
  · intro h
    rw [diskMountSource, diskMountSource, h]

theorem workspaceOf_ne_diskMountBase (id lower : Bytes) :
    workspaceOf sha256 base id lower ≠ diskMountBase base := by
  intro h
  have hname := List.append_cancel_left h
  exact hexLower_ne_diskMounts _ (List.singleton_inj.mp hname)

/-- A workspace is a child of the overlay base, a directory behind a disk mount is not. -/
theorem workspaceOf_ne_diskMountSource (id lower id' lower' target : Bytes) :
    workspaceOf sha256 base id lower ≠ diskMountSource sha256 base id' lower' target := by
  intro h
  have hlength := congrArg List.length h
  simp [workspaceOf, diskMountSource, diskMountBase] at hlength

/-- Identities of strings that fit into memory are equal only where all their parts are, no
workspace is the base of the disk mounts or a directory in it, and two directories coincide
only where their identities do or collide. -/
theorem directories_apart (sha256 : Bytes → Bytes) (base : Position)
    (id lower target id' lower' target' : Bytes)
    (hfit : ∀ part ∈ [id, lower, target, id', lower', target'], part.length < 2 ^ 64) :
    (overlayIdentity id lower = overlayIdentity id' lower' → id = id' ∧ lower = lower') ∧
    (diskMountIdentity id lower target = diskMountIdentity id' lower' target' →
      id = id' ∧ lower = lower' ∧ target = target') ∧
    Function.Injective hexLower ∧
    (∀ digest, hexLower digest ≠ lit "disk-mounts") ∧
    (workspaceOf sha256 base id lower = workspaceOf sha256 base id' lower' →
      (id = id' ∧ lower = lower') ∨
        Collision sha256 (overlayIdentity id lower) (overlayIdentity id' lower')) ∧
    (diskMountSource sha256 base id lower target = diskMountSource sha256 base id' lower' target' →
      (id = id' ∧ lower = lower' ∧ target = target') ∨
        Collision sha256 (diskMountIdentity id lower target)
          (diskMountIdentity id' lower' target')) ∧
    workspaceOf sha256 base id lower ≠ diskMountBase base ∧
    workspaceOf sha256 base id lower ≠ diskMountSource sha256 base id' lower' target' := by
  simp only [List.forall_mem_cons] at hfit
  obtain ⟨hid, hlower, htarget, hid', hlower', htarget', -⟩ := hfit
  have hoverlay := overlayIdentity_injective hid hid' hlower hlower'
  have hdisk := diskMountIdentity_injective hid hid' hlower hlower' htarget htarget'
  refine ⟨hoverlay, hdisk, fun _ _ => hexLower_injective, hexLower_ne_diskMounts, ?_, ?_,
    workspaceOf_ne_diskMountBase id lower, workspaceOf_ne_diskMountSource id lower id' lower' target'⟩
  · intro hsame
    have hdigest := (workspaceOf_eq_iff id id' lower lower').mp hsame
    by_cases hidentity : overlayIdentity id lower = overlayIdentity id' lower'
    · exact Or.inl (hoverlay hidentity)
    · exact Or.inr ⟨hidentity, hdigest⟩
  · intro hsame
    have hdigest := (diskMountSource_eq_iff id id' lower lower' target target').mp hsame
    by_cases hidentity : diskMountIdentity id lower target = diskMountIdentity id' lower' target'
    · exact Or.inl (hdisk hidentity)
    · exact Or.inr ⟨hidentity, hdigest⟩

/-- The SHA-256 digests of two overlay identities, and nothing for other inputs. -/
def recordedDigest (bytes : Bytes) : Bytes :=
  if bytes = overlayIdentity (lit "fastapi") (lit "/mnt/fastapi") then
    [64, 170, 190, 19, 222, 233, 122, 193, 23, 170, 210, 122, 138, 207, 72, 148, 57, 70, 147, 204,
      213, 229, 104, 66, 135, 13, 23, 168, 202, 163, 45, 78]
  else if bytes = overlayIdentity (lit "egress") (lit "/mnt/fastapi") then
    [221, 188, 51, 155, 230, 211, 190, 143, 112, 34, 117, 181, 136, 255, 241, 246, 120, 158, 158,
      235, 211, 154, 222, 78, 151, 30, 64, 195, 32, 66, 191, 230]
  else []

theorem directories_apart_ids :
    overlayIdentity (lit "fastapi") (lit "/mnt/fastapi") ≠
      overlayIdentity (lit "egress") (lit "/mnt/fastapi") ∧
    workspaceOf recordedDigest [lit "overlay"] (lit "fastapi") (lit "/mnt/fastapi") ≠
      workspaceOf recordedDigest [lit "overlay"] (lit "egress") (lit "/mnt/fastapi") ∧
    workspaceOf recordedDigest [lit "overlay"] (lit "fastapi") (lit "/mnt/fastapi") ≠
      diskMountBase [lit "overlay"] := by
  obtain ⟨hoverlay, -, -, -, hworkspace, -, hbase, -⟩ := directories_apart recordedDigest
    [lit "overlay"] (lit "fastapi") (lit "/mnt/fastapi") (lit "/data") (lit "egress")
    (lit "/mnt/fastapi") (lit "/data") (by decide +kernel)
  have hids : lit "fastapi" ≠ lit "egress" := by decide +kernel
  have hdigests : recordedDigest (overlayIdentity (lit "fastapi") (lit "/mnt/fastapi")) ≠
      recordedDigest (overlayIdentity (lit "egress") (lit "/mnt/fastapi")) := by decide +kernel
  refine ⟨fun h => hids (hoverlay h).1, fun h => ?_, hbase⟩
  rcases hworkspace h with hsame | hcollision
  · exact hids hsame.1
  · exact hdigests hcollision.2

end Sandcamp.Sandrun
