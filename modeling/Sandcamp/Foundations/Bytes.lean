import Mathlib.Data.List.Basic
import Mathlib.Tactic.IntervalCases

/-!
# Byte strings, ASCII classes and decimal numerals

Every string of the modelled programs is a list of bytes: an argument vector, a
path and an environment value are byte strings to the kernel, and UTF-8 text is
a byte string that happens to be well formed. `lit` turns a literal of the
source into its bytes.
-/

namespace Foundations

abbrev Bytes := List UInt8

-- Membership in a list of byte strings is decided through this instance everywhere.
instance : LawfulBEq Bytes := List.instLawfulBEq

/-- The bytes of a string literal. -/
def lit (s : String) : Bytes := s.toUTF8.data.toList

theorem lit_inj (a b : String) : lit a = lit b ↔ a = b := by
  constructor
  · intro h
    have hbytes : a.toUTF8 = b.toUTF8 := ByteArray.ext (Array.toList_inj.mp h)
    exact String.toByteArray_inj.mp hbytes
  · rintro rfl
    rfl

/-- A closed string is ASCII by evaluating it. -/
theorem ascii_of_all {bs : Bytes} (h : bs.all (· < 0x80) = true) : ∀ b ∈ bs, b < 0x80 := by
  simpa using h

/-- The terminator of a text line. -/
abbrev newline : UInt8 := 10

/-- `str::lines`: the pieces between newlines, each without one carriage return
before its newline. A last piece that no newline ends counts when it is not
empty, and keeps its carriage return. -/
def lines (text : Bytes) : List Bytes :=
  let pieces := text.splitOn newline
  let ended := pieces.dropLast.map fun line =>
    if line.getLast? = some 13 then line.dropLast else line
  match pieces.getLast? with
  | none | some [] => ended
  | some line => ended ++ [line]

/-- A function that takes piece after piece off a list is the same with all the fuel that
suffices: a piece is one item at least. -/
theorem fuel_enough {α β : Type} {f : ℕ → List α → List β} {piece : α → List α → β}
    {left : α → List α → List α} (hnil : ∀ fuel, f fuel [] = [])
    (hcons : ∀ fuel b bs, f (fuel + 1) (b :: bs) = piece b bs :: f fuel (left b bs))
    (hleft : ∀ b bs, (left b bs).length ≤ bs.length) (n m : ℕ) (bs : List α)
    (hn : bs.length ≤ n) (hm : bs.length ≤ m) : f n bs = f m bs := by
  induction n generalizing m bs with
  | zero =>
    rw [List.length_eq_zero_iff.mp (Nat.le_zero.mp hn), hnil, hnil]
  | succ n ih =>
    cases bs with
    | nil => rw [hnil, hnil]
    | cons b bs =>
      have hle := hleft b bs
      simp only [List.length_cons] at hn hm
      obtain ⟨m, rfl⟩ : ∃ k, m = k + 1 := ⟨m - 1, by omega⟩
      rw [hcons, hcons, ih m (left b bs) (by omega) (by omega)]

/-! ### ASCII classes -/

def isAsciiDigit (b : UInt8) : Bool := 48 ≤ b && b ≤ 57

def isAsciiAlphabetic (b : UInt8) : Bool := (65 ≤ b && b ≤ 90) || (97 ≤ b && b ≤ 122)

def isAsciiAlphanumeric (b : UInt8) : Bool := isAsciiAlphabetic b || isAsciiDigit b

def isAsciiHexdigit (b : UInt8) : Bool :=
  isAsciiDigit b || (65 ≤ b && b ≤ 70) || (97 ≤ b && b ≤ 102)

/-- The path separator. -/
abbrev slash : UInt8 := 47

/-- The string terminator no path, argument or environment value may contain. -/
abbrev nul : UInt8 := 0

abbrev colon : UInt8 := 58

theorem isAsciiDigit_toNat (b : UInt8) :
    isAsciiDigit b = true ↔ 48 ≤ b.toNat ∧ b.toNat ≤ 57 := by
  simp [isAsciiDigit, UInt8.le_iff_toNat_le]

theorem isAsciiAlphabetic_toNat (b : UInt8) :
    isAsciiAlphabetic b = true ↔
      (65 ≤ b.toNat ∧ b.toNat ≤ 90) ∨ (97 ≤ b.toNat ∧ b.toNat ≤ 122) := by
  simp [isAsciiAlphabetic, UInt8.le_iff_toNat_le]

theorem isAsciiAlphanumeric_toNat (b : UInt8) :
    isAsciiAlphanumeric b = true ↔
      (65 ≤ b.toNat ∧ b.toNat ≤ 90) ∨ (97 ≤ b.toNat ∧ b.toNat ≤ 122) ∨
        (48 ≤ b.toNat ∧ b.toNat ≤ 57) := by
  rw [isAsciiAlphanumeric, Bool.or_eq_true, isAsciiAlphabetic_toNat, isAsciiDigit_toNat]
  exact or_assoc

theorem isAsciiDigit_lt (b : UInt8) (h : isAsciiDigit b = true) : b < 0x80 := by
  rw [isAsciiDigit_toNat] at h
  rw [UInt8.lt_iff_toNat_lt]
  exact Nat.lt_of_le_of_lt h.2 (by decide)

theorem isAsciiAlphanumeric_lt (b : UInt8) (h : isAsciiAlphanumeric b = true) : b < 0x80 := by
  rw [isAsciiAlphanumeric_toNat] at h
  rw [UInt8.lt_iff_toNat_lt]
  show b.toNat < 128
  omega

/-! ### Decimal numerals -/

/-- The shortest decimal numeral of `n`, as `to_string` and `%d` print it. -/
def decimal (n : ℕ) : Bytes := (Nat.toDigits 10 n).map Char.toUInt8

/-- Value of a run of decimal digits, continuing from `acc`. -/
def digitsValue (acc : ℕ) (bs : Bytes) : ℕ :=
  bs.foldl (fun acc b => 10 * acc + (b.toNat - 48)) acc

/-- `str::parse` for an unsigned type below `bound`: an optional `+`, then digits. -/
def parseUnsigned (bound : ℕ) (bs : Bytes) : Option ℕ :=
  let digits := if bs.head? = some 43 then bs.tail else bs
  if digits ≠ [] ∧ digits.all isAsciiDigit = true ∧ digitsValue 0 digits < bound then
    some (digitsValue 0 digits)
  else none

theorem digitsValue_append (acc : ℕ) (xs ys : Bytes) :
    digitsValue acc (xs ++ ys) = digitsValue (digitsValue acc xs) ys :=
  List.foldl_append

theorem decimal_of_lt (n : ℕ) (h : n < 10) : decimal n = [n.digitChar.toUInt8] := by
  rw [decimal, Nat.toDigits_of_lt_base h]
  rfl

theorem digitChar_toNat (n : ℕ) (h : n < 10) : n.digitChar.toUInt8.toNat = 48 + n := by
  interval_cases n <;> rfl

theorem decimal_of_le (n : ℕ) (h : 10 ≤ n) :
    decimal n = decimal (n / 10) ++ decimal (n % 10) := by
  have hlast : n % 10 < 10 := Nat.mod_lt _ (by omega)
  rw [decimal_of_lt (n % 10) hlast]
  simp only [decimal]
  rw [Nat.toDigits_of_base_le (by omega) h, List.map_append]
  rfl

theorem decimal_ne_nil (n : ℕ) : decimal n ≠ [] := by
  simp [decimal]

theorem decimal_isAsciiDigit (n : ℕ) : ∀ b ∈ decimal n, isAsciiDigit b = true := by
  induction n using Nat.strongRecOn with
  | ind n ih =>
    by_cases h : n < 10
    · intro b hb
      rw [decimal_of_lt n h, List.mem_singleton] at hb
      rw [hb, isAsciiDigit_toNat, digitChar_toNat n h]
      omega
    · intro b hb
      rw [decimal_of_le n (by omega), List.mem_append] at hb
      rcases hb with hb | hb
      · exact ih (n / 10) (by omega) b hb
      · exact ih (n % 10) (by omega) b hb

theorem digitsValue_digit (acc d : ℕ) (h : d < 10) :
    digitsValue acc [d.digitChar.toUInt8] = 10 * acc + d := by
  simp only [digitsValue, List.foldl_cons, List.foldl_nil, digitChar_toNat d h,
    Nat.add_sub_cancel_left]

theorem digitsValue_decimal (n : ℕ) : digitsValue 0 (decimal n) = n := by
  induction n using Nat.strongRecOn with
  | ind n ih =>
    by_cases h : n < 10
    · rw [decimal_of_lt n h, digitsValue_digit 0 n h]
      omega
    · have hlast : n % 10 < 10 := Nat.mod_lt _ (by omega)
      rw [decimal_of_le n (by omega), digitsValue_append, ih (n / 10) (by omega),
        decimal_of_lt (n % 10) hlast, digitsValue_digit _ _ hlast]
      omega

theorem parseUnsigned_decimal (bound n : ℕ) (h : n < bound) :
    parseUnsigned bound (decimal n) = some n := by
  have hdigits : (decimal n).all isAsciiDigit = true :=
    List.all_eq_true.mpr (decimal_isAsciiDigit n)
  have hplus : (decimal n).head? ≠ some 43 := by
    intro hp
    have hd := decimal_isAsciiDigit n 43 (List.mem_of_mem_head? hp)
    simp [isAsciiDigit] at hd
  simp only [parseUnsigned, if_neg hplus, digitsValue_decimal]
  exact if_pos ⟨decimal_ne_nil n, hdigits, h⟩

theorem parseUnsigned_lt {bound n : ℕ} {bs : Bytes} (h : parseUnsigned bound bs = some n) :
    n < bound := by
  unfold parseUnsigned at h
  generalize (if bs.head? = some 43 then bs.tail else bs) = digits at h
  by_cases hdigits : digits ≠ [] ∧ digits.all isAsciiDigit = true ∧ digitsValue 0 digits < bound
  · rw [if_pos hdigits] at h
    rw [← Option.some.inj h]
    exact hdigits.2.2
  · rw [if_neg hdigits] at h
    cases h

end Foundations
