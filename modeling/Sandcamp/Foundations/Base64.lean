import Sandcamp.Foundations.Bytes

/-!
# Base64, standard alphabet with padding

`encode` writes three bytes as four digits and pads the last group with `=`. `decode`
accepts canonical texts only: full groups, padding where it is due, no bits set behind
the last byte.
-/

namespace Foundations.Base64
open Foundations

def alphabet : Bytes := lit "ABCDEFGHIJKLMNOPQRSTUVWXYZabcdefghijklmnopqrstuvwxyz0123456789+/"

/-- The padding character. -/
abbrev pad : UInt8 := 61

def digit (n : ℕ) : UInt8 := alphabet.getD n pad

def digitValue (b : UInt8) : Option ℕ :=
  if alphabet.idxOf b < 64 then some (alphabet.idxOf b) else none

def encode : Bytes → Bytes
  | [] => []
  | [a] => [digit (a.toNat / 4), digit (a.toNat % 4 * 16), pad, pad]
  | [a, b] =>
    [digit (a.toNat / 4), digit (a.toNat % 4 * 16 + b.toNat / 16), digit (b.toNat % 16 * 4), pad]
  | a :: b :: c :: rest =>
    digit (a.toNat / 4) :: digit (a.toNat % 4 * 16 + b.toNat / 16) ::
      digit (b.toNat % 16 * 4 + c.toNat / 64) :: digit (c.toNat % 64) :: encode rest

/-- The last group, with one or two padding characters. -/
def decodePadded (w x y : UInt8) : Option Bytes := do
  let w ← digitValue w
  let x ← digitValue x
  if y = pad then
    if x % 16 = 0 then some [UInt8.ofNat (w * 4 + x / 16)] else none
  else do
    let y ← digitValue y
    if y % 4 = 0 then some [UInt8.ofNat (w * 4 + x / 16), UInt8.ofNat (x % 16 * 16 + y / 4)]
    else none

def decode : Bytes → Option Bytes
  | [] => some []
  | w :: x :: y :: z :: rest =>
    if z = pad then
      if rest = [] then decodePadded w x y else none
    else do
      let w ← digitValue w
      let x ← digitValue x
      let y ← digitValue y
      let z ← digitValue z
      let rest ← decode rest
      some (UInt8.ofNat (w * 4 + x / 16) :: UInt8.ofNat (x % 16 * 16 + y / 4) ::
        UInt8.ofNat (y % 4 * 64 + z) :: rest)
  | _ => none

theorem digit_ne_pad (n : ℕ) (h : n < 64) : digit n ≠ pad := by
  have hall : ∀ n < 64, digit n ≠ pad := by decide +kernel
  exact hall n h

theorem digitValue_digit (n : ℕ) (h : n < 64) : digitValue (digit n) = some n := by
  have hall : ∀ n < 64, digitValue (digit n) = some n := by decide +kernel
  exact hall n h

theorem ofNat_of_eq (a : UInt8) (n : ℕ) (h : n = a.toNat) : UInt8.ofNat n = a := by
  rw [h]
  exact UInt8.ofNat_toNat

theorem decode_encode (bs : Bytes) : decode (encode bs) = some bs := by
  fun_induction encode bs with
  | case1 => rfl
  | case2 a =>
    have ha := a.toNat_lt
    have hx : (a.toNat % 4 * 16) % 16 = 0 := by omega
    rw [decode, if_pos rfl, if_pos rfl, decodePadded, digitValue_digit _ (by omega),
      digitValue_digit _ (by omega)]
    show (if (a.toNat % 4 * 16) % 16 = 0 then _ else none) = _
    rw [if_pos hx, ofNat_of_eq a _ (by omega)]
  | case3 a b =>
    have ha := a.toNat_lt
    have hb := b.toNat_lt
    have hy : (b.toNat % 16 * 4) % 4 = 0 := by omega
    rw [decode, if_pos rfl, if_pos rfl, decodePadded, digitValue_digit _ (by omega),
      digitValue_digit _ (by omega)]
    simp only [Option.bind_eq_bind, Option.bind_some]
    rw [if_neg (digit_ne_pad _ (by omega)), digitValue_digit _ (by omega), Option.bind_some,
      if_pos hy, ofNat_of_eq a _ (by omega), ofNat_of_eq b _ (by omega)]
  | case4 a b c rest ih =>
    have ha := a.toNat_lt
    have hb := b.toNat_lt
    have hc := c.toNat_lt
    rw [decode, if_neg (digit_ne_pad _ (by omega)), digitValue_digit _ (by omega),
      digitValue_digit _ (by omega), digitValue_digit _ (by omega), digitValue_digit _ (by omega),
      ih]
    show some (_ :: _ :: _ :: rest) = _
    rw [ofNat_of_eq a _ (by omega), ofNat_of_eq b _ (by omega), ofNat_of_eq c _ (by omega)]

theorem encode_injective : Function.Injective encode := by
  intro bs cs h
  have hdecode := decode_encode bs
  rw [h, decode_encode cs] at hdecode
  exact (Option.some.inj hdecode).symm

theorem length_le_encode (bs : Bytes) : bs.length ≤ (encode bs).length := by
  fun_induction encode bs with
  | case1 => exact Nat.le_refl _
  | case2 a => simp
  | case3 a b => simp
  | case4 a b c rest ih =>
    simp only [List.length_cons]
    omega

end Foundations.Base64
