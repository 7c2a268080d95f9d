import Sandcamp.Foundations.Bytes
import Sandcamp.Foundations.Framing

/-!
# Identities of writable layers (linux.rs:398-418, 830-850)

An overlay workspace and a disk-mount directory are named by the digest of an
identity: a prefix and length-prefixed parts. `sha256` is a parameter; everything
else is injective.
-/

namespace Sandcamp.Sandrun
open Foundations

/-- `(n as u64).to_be_bytes()`. -/
def bigEndian64 (n : ℕ) : Bytes :=
  [7, 6, 5, 4, 3, 2, 1, 0].map fun i => UInt8.ofNat (n / 256 ^ i % 256)

/-- `append_identity_part` (`linux.rs:405-408`). -/
def appendIdentityPart (identity value : Bytes) : Bytes :=
  identity ++ bigEndian64 value.length ++ value

/-- `overlay_identity` (`linux.rs:398-403`). -/
def overlayIdentity (overlayId lower : Bytes) : Bytes :=
  appendIdentityPart (appendIdentityPart (lit "sandrun-overlay-v1") overlayId) lower

/-- The identity of a disk mount (`linux.rs:843-846`). -/
def diskMountIdentity (overlayId lower target : Bytes) : Bytes :=
  appendIdentityPart
    (appendIdentityPart (appendIdentityPart (lit "sandrun-disk-mount-v1") overlayId) lower) target

/-- A digit of `HEX`. -/
def hexDigit (n : ℕ) : UInt8 := (lit "0123456789abcdef").getD n 0

/-- `hex_lower` (`linux.rs:410-418`). -/
def hexLower (value : Bytes) : Bytes :=
  value.flatMap fun byte => [hexDigit (byte.toNat / 16), hexDigit (byte.toNat % 16)]

/-! ### Injectivity -/

theorem digit_injective {a b : ℕ} (ha : a < 256) (hb : b < 256)
    (h : UInt8.ofNat a = UInt8.ofNat b) : a = b := by
  have hn := congrArg UInt8.toNat h
  rwa [UInt8.toNat_ofNat_of_lt' ha, UInt8.toNat_ofNat_of_lt' hb] at hn

theorem bigEndian64_injective {m n : ℕ} (hm : m < 2 ^ 64) (hn : n < 2 ^ 64)
    (h : bigEndian64 m = bigEndian64 n) : m = n := by
  simp only [bigEndian64, List.map_cons, List.map_nil, List.cons.injEq, and_true] at h
  have hdigit : ∀ i, UInt8.ofNat (m / 256 ^ i % 256) = UInt8.ofNat (n / 256 ^ i % 256) →
      m / 256 ^ i % 256 = n / 256 ^ i % 256 := fun i hi =>
    digit_injective (Nat.mod_lt _ (by decide)) (Nat.mod_lt _ (by decide)) hi
  obtain ⟨h7, h6, h5, h4, h3, h2, h1, h0⟩ := h
  have e7 := hdigit 7 h7
  have e6 := hdigit 6 h6
  have e5 := hdigit 5 h5
  have e4 := hdigit 4 h4
  have e3 := hdigit 3 h3
  have e2 := hdigit 2 h2
  have e1 := hdigit 1 h1
  have e0 := hdigit 0 h0
  norm_num at e7 e6 e5 e4 e3 e2 e1 e0 hm hn
  omega

theorem bigEndian64_length (n : ℕ) : (bigEndian64 n).length = 8 := rfl

theorem heads_bigEndian64 : Heads bigEndian64 8 (2 ^ 64) where
  length := bigEndian64_length
  positive := by decide
  injective := fun _ hm _ hn h => bigEndian64_injective hm hn h

/-- A length-prefixed part can be taken off the rest. -/
theorem part_injective {value value' : Bytes} (rest rest' : Bytes) (hv : value.length < 2 ^ 64)
    (hv' : value'.length < 2 ^ 64)
    (h : bigEndian64 value.length ++ value ++ rest = bigEndian64 value'.length ++ value' ++ rest') :
    value = value' ∧ rest = rest' :=
  frame_injective heads_bigEndian64 rest rest' hv hv' h

theorem overlayIdentity_eq (overlayId lower : Bytes) :
    overlayIdentity overlayId lower =
      lit "sandrun-overlay-v1" ++ frames bigEndian64 [overlayId, lower] := by
  simp [overlayIdentity, appendIdentityPart, frames, frame]

theorem diskMountIdentity_eq (overlayId lower target : Bytes) :
    diskMountIdentity overlayId lower target =
      lit "sandrun-disk-mount-v1" ++ frames bigEndian64 [overlayId, lower, target] := by
  simp [diskMountIdentity, appendIdentityPart, frames, frame]

theorem overlayIdentity_injective {id id' lower lower' : Bytes} (hid : id.length < 2 ^ 64)
    (hid' : id'.length < 2 ^ 64) (hlower : lower.length < 2 ^ 64)
    (hlower' : lower'.length < 2 ^ 64)
    (h : overlayIdentity id lower = overlayIdentity id' lower') : id = id' ∧ lower = lower' := by
  rw [overlayIdentity_eq, overlayIdentity_eq] at h
  have hframes := List.append_cancel_left h
  have hparts := frames_injective heads_bigEndian64 [id, lower] [id', lower']
    (by simpa using ⟨hid, hlower⟩) (by simpa using ⟨hid', hlower'⟩) hframes
  simpa using hparts

theorem diskMountIdentity_injective {id id' lower lower' target target' : Bytes}
    (hid : id.length < 2 ^ 64) (hid' : id'.length < 2 ^ 64) (hlower : lower.length < 2 ^ 64)
    (hlower' : lower'.length < 2 ^ 64) (htarget : target.length < 2 ^ 64)
    (htarget' : target'.length < 2 ^ 64)
    (h : diskMountIdentity id lower target = diskMountIdentity id' lower' target') :
    id = id' ∧ lower = lower' ∧ target = target' := by
  rw [diskMountIdentity_eq, diskMountIdentity_eq] at h
  have hframes := List.append_cancel_left h
  have hparts := frames_injective heads_bigEndian64 [id, lower, target] [id', lower', target']
    (by simpa using ⟨hid, hlower, htarget⟩) (by simpa using ⟨hid', hlower', htarget'⟩) hframes
  simpa using hparts

theorem hexDigit_injective {a b : ℕ} (ha : a < 16) (hb : b < 16) (h : hexDigit a = hexDigit b) :
    a = b := by
  have hall : ∀ a < 16, ∀ b < 16, hexDigit a = hexDigit b → a = b := by decide
  exact hall a ha b hb h

theorem hexLower_injective {x y : Bytes} (h : hexLower x = hexLower y) : x = y := by
  induction x generalizing y with
  | nil =>
    cases y with
    | nil => rfl
    | cons b ys => cases h
  | cons a xs ih =>
    cases y with
    | nil => cases h
    | cons b ys =>
      simp only [hexLower, List.flatMap_cons, List.cons_append, List.nil_append,
        List.cons.injEq] at h
      obtain ⟨hhigh, hlow, hrest⟩ := h
      have ha := UInt8.toNat_lt a
      have hb := UInt8.toNat_lt b
      have h1 := hexDigit_injective (by omega) (by omega) hhigh
      have h2 := hexDigit_injective (Nat.mod_lt _ (by decide)) (Nat.mod_lt _ (by decide)) hlow
      have hab : a = b := UInt8.toNat_inj.mp (by omega)
      rw [hab, ih hrest]

end Sandcamp.Sandrun
