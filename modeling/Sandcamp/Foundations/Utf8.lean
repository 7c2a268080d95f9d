import Sandcamp.Foundations.Bytes

/-!
# UTF-8 sequences of a byte string

`scalarLength` is the length of the well-formed sequence a byte string starts
with, 0 when there is none: the lead byte announces the length and, for four
leads, narrows the range of the second byte. `chunks` cuts a byte string into
well-formed sequences and single stray bytes, which is how decoders that never
fail walk it; a string is UTF-8 when no stray byte is left.
-/

namespace Foundations.Utf8
open Foundations

def continuation (b : UInt8) : Bool := 0x80 ≤ b && b ≤ 0xBF

/-- The bytes a sequence that starts with `lead` takes, 0 for a byte that starts none. -/
def announced (lead : UInt8) : ℕ :=
  if lead < 0x80 then 1
  else if 0xC2 ≤ lead && lead ≤ 0xDF then 2
  else if 0xE0 ≤ lead && lead ≤ 0xEF then 3
  else if 0xF0 ≤ lead && lead ≤ 0xF4 then 4
  else 0

/-- Second bytes: no overlong form, no surrogate, nothing above U+10FFFF. -/
def second (lead b : UInt8) : Bool :=
  if lead = 0xE0 then 0xA0 ≤ b && b ≤ 0xBF
  else if lead = 0xED then 0x80 ≤ b && b ≤ 0x9F
  else if lead = 0xF0 then 0x90 ≤ b && b ≤ 0xBF
  else if lead = 0xF4 then 0x80 ≤ b && b ≤ 0x8F
  else continuation b

def scalarLength : Bytes → ℕ
  | [] => 0
  | lead :: rest =>
    match announced lead, rest with
    | 1, _ => 1
    | 2, b :: _ => if second lead b then 2 else 0
    | 3, b :: c :: _ => if second lead b && continuation c then 3 else 0
    | 4, b :: c :: d :: _ =>
      if second lead b && continuation c && continuation d then 4 else 0
    | _, _ => 0

inductive Chunk where
  | scalar (bytes : Bytes)
  | stray (byte : UInt8)
  deriving DecidableEq, Repr

/-- The first chunk of a non-empty string. -/
def headChunk (b : UInt8) (bs : Bytes) : Chunk :=
  if scalarLength (b :: bs) = 0 then .stray b
  else .scalar ((b :: bs).take (scalarLength (b :: bs)))

/-- What the first chunk leaves. -/
def afterHead (b : UInt8) (bs : Bytes) : Bytes := bs.drop (scalarLength (b :: bs) - 1)

/-- `fuel` bounds the number of chunks. -/
def chunksWithin : ℕ → Bytes → List Chunk
  | _, [] => []
  | 0, _ => []
  | fuel + 1, b :: bs => headChunk b bs :: chunksWithin fuel (afterHead b bs)

def chunks (bs : Bytes) : List Chunk := chunksWithin bs.length bs

def Chunk.isScalar : Chunk → Bool
  | .scalar _ => true
  | .stray _ => false

/-- `std::str::from_utf8(bs).is_ok()`, `utf8.Valid`. -/
def valid (bs : Bytes) : Bool := (chunks bs).all Chunk.isScalar

theorem afterHead_length_le (b : UInt8) (bs : Bytes) : (afterHead b bs).length ≤ bs.length := by
  simp [afterHead]

theorem chunksWithin_enough (fuel : ℕ) (bs : Bytes) (h : bs.length ≤ fuel) :
    chunksWithin fuel bs = chunks bs :=
  fuel_enough (fun fuel => by cases fuel <;> rfl) (fun _ _ _ => rfl) afterHead_length_le fuel
    bs.length bs h (Nat.le_refl _)

theorem chunks_cons (b : UInt8) (bs : Bytes) :
    chunks (b :: bs) = headChunk b bs :: chunks (afterHead b bs) := by
  rw [chunks, List.length_cons, chunksWithin,
    chunksWithin_enough bs.length _ (afterHead_length_le b bs)]

/-! ### ASCII -/

theorem scalarLength_ascii (b : UInt8) (bs : Bytes) (h : b < 0x80) :
    scalarLength (b :: bs) = 1 := by
  have ha : announced b = 1 := by simp [announced, h]
  simp only [scalarLength, ha]

theorem chunks_ascii (b : UInt8) (bs : Bytes) (h : b < 0x80) :
    chunks (b :: bs) = .scalar [b] :: chunks bs := by
  rw [chunks_cons, headChunk, afterHead, scalarLength_ascii b bs h]
  rfl

theorem valid_of_ascii (bs : Bytes) (h : ∀ b ∈ bs, b < 0x80) : valid bs = true := by
  induction bs with
  | nil => rfl
  | cons b bs ih =>
    rw [valid, chunks_ascii b bs (h b List.mem_cons_self), List.all_cons]
    exact ih fun c hc => h c (List.mem_cons_of_mem b hc)

/-! ### Single sequences -/

/-- One well-formed sequence and nothing else. -/
def Scalar (bs : Bytes) : Prop := bs ≠ [] ∧ scalarLength bs = bs.length

theorem scalarLength_append (bs rest : Bytes) (h : scalarLength bs ≠ 0) :
    scalarLength (bs ++ rest) = scalarLength bs := by
  cases bs with
  | nil => exact absurd rfl h
  | cons lead tail =>
    simp only [scalarLength, List.cons_append] at h ⊢
    generalize announced lead = n at h ⊢
    match n, tail with
    | 0, _ => exact absurd rfl h
    | 1, _ => rfl
    | 2, [] => exact absurd rfl h
    | 2, _ :: _ => rfl
    | 3, [] => exact absurd rfl h
    | 3, [_] => exact absurd rfl h
    | 3, _ :: _ :: _ => rfl
    | 4, [] => exact absurd rfl h
    | 4, [_] => exact absurd rfl h
    | 4, [_, _] => exact absurd rfl h
    | 4, _ :: _ :: _ :: _ => rfl
    | n + 5, _ => exact absurd rfl h

theorem scalarLength_take (bs : Bytes) (h : scalarLength bs ≠ 0) :
    scalarLength (bs.take (scalarLength bs)) = scalarLength bs ∧ scalarLength bs ≤ bs.length := by
  cases bs with
  | nil => exact absurd rfl h
  | cons lead tail =>
    simp only [scalarLength] at h ⊢
    generalize hn : announced lead = n at h ⊢
    match n, tail with
    | 0, _ => exact absurd rfl h
    | 1, _ => simp [hn]
    | 2, [] => exact absurd rfl h
    | 2, b :: _ =>
      by_cases hb : second lead b = true
      · simp [hn, hb]
      · simp [hb] at h
    | 3, [] => exact absurd rfl h
    | 3, [_] => exact absurd rfl h
    | 3, b :: c :: _ =>
      by_cases hb : (second lead b && continuation c) = true
      · simp only [hb, if_true, List.take_succ_cons, List.take_zero, hn, List.length_cons]
        exact ⟨trivial, by omega⟩
      · simp [hb] at h
    | 4, [] => exact absurd rfl h
    | 4, [_] => exact absurd rfl h
    | 4, [_, _] => exact absurd rfl h
    | 4, b :: c :: d :: _ =>
      by_cases hb : (second lead b && continuation c && continuation d) = true
      · simp only [hb, if_true, List.take_succ_cons, List.take_zero, hn, List.length_cons]
        exact ⟨trivial, by omega⟩
      · simp [hb] at h
    | n + 5, _ => exact absurd rfl h

theorem scalar_headChunk {b : UInt8} {bs sequence : Bytes}
    (h : headChunk b bs = .scalar sequence) :
    Scalar sequence ∧ b :: bs = sequence ++ afterHead b bs := by
  unfold headChunk at h
  split at h
  · cases h
  · rename_i hne
    obtain rfl := Chunk.scalar.inj h
    obtain ⟨htake, hle⟩ := scalarLength_take (b :: bs) hne
    refine ⟨⟨?_, ?_⟩, ?_⟩
    · intro hnil
      have hlength := congrArg List.length hnil
      rw [List.length_take_of_le hle] at hlength
      exact hne hlength
    · rw [htake, List.length_take_of_le hle]
    · have hsplit := List.take_append_drop (scalarLength (b :: bs)) (b :: bs)
      obtain ⟨n, hn⟩ := Nat.exists_eq_succ_of_ne_zero hne
      rw [afterHead, hn, Nat.succ_sub_one]
      rw [hn, List.drop_succ_cons] at hsplit
      exact hsplit.symm

theorem scalarLength_of_scalar {b : UInt8} {tail : Bytes} (rest : Bytes) (h : Scalar (b :: tail)) :
    scalarLength (b :: (tail ++ rest)) = tail.length + 1 := by
  have hlength : scalarLength (b :: tail) = tail.length + 1 := h.2
  have hpos : scalarLength (b :: tail) ≠ 0 := by omega
  rw [← List.cons_append, scalarLength_append _ rest hpos, hlength]

theorem headChunk_of_scalar {sequence : Bytes} (rest : Bytes) (h : Scalar sequence) :
    ∃ b bs, sequence ++ rest = b :: bs ∧ headChunk b bs = .scalar sequence ∧
      afterHead b bs = rest := by
  cases sequence with
  | nil => exact absurd rfl h.1
  | cons b tail =>
    have hall := scalarLength_of_scalar rest h
    refine ⟨b, tail ++ rest, rfl, ?_, ?_⟩
    · unfold headChunk
      rw [hall, if_neg (by simp), ← List.cons_append, ← List.length_cons, List.take_left]
    · unfold afterHead
      rw [hall, Nat.add_sub_cancel, List.drop_left]

/-! ### Stray bytes replaced -/

/-- The well-formed sequences of a byte string, with one mark for each stray byte. -/
def scrub (bs : Bytes) : List (Option Bytes) :=
  (chunks bs).map fun
    | .scalar sequence => some sequence
    | .stray _ => none

/-- The bytes again, with U+FFFD for each mark. -/
def repair (pieces : List (Option Bytes)) : Bytes :=
  pieces.flatMap fun
    | some sequence => sequence
    | none => [0xEF, 0xBF, 0xBD]

/-- The bytes again, with the byte 0xFF, which is no part of any sequence, for each mark. -/
def fill (pieces : List (Option Bytes)) : Bytes :=
  pieces.flatMap fun
    | some sequence => sequence
    | none => [0xFF]

/-- Every byte that is no part of a sequence replaced by the byte 0xFF. -/
def mark (bs : Bytes) : Bytes := fill (scrub bs)

theorem scrub_cons (b : UInt8) (bs : Bytes) :
    scrub (b :: bs) = (match headChunk b bs with
      | .scalar sequence => some sequence
      | .stray _ => none) :: scrub (afterHead b bs) := by
  unfold scrub
  rw [chunks_cons, List.map_cons]

theorem scalar_of_mem_scrub (bs : Bytes) : ∀ sequence, some sequence ∈ scrub bs → Scalar sequence := by
  induction hlength : bs.length using Nat.strong_induction_on generalizing bs with
  | _ n ih =>
    cases bs with
    | nil => exact fun sequence hm => absurd hm List.not_mem_nil
    | cons b bs =>
      intro sequence hm
      rw [scrub_cons] at hm
      rcases List.mem_cons.mp hm with hhead | hrest
      · cases hchunk : headChunk b bs with
        | stray byte =>
          rw [hchunk] at hhead
          cases hhead
        | scalar found =>
          rw [hchunk] at hhead
          obtain rfl := Option.some.inj hhead
          exact (scalar_headChunk hchunk).1
      · have hle := afterHead_length_le b bs
        rw [List.length_cons] at hlength
        exact ih _ (by omega) (afterHead b bs) rfl sequence hrest

theorem scrub_scalar_append (sequence rest : Bytes) (h : Scalar sequence) :
    scrub (sequence ++ rest) = some sequence :: scrub rest := by
  obtain ⟨b, bs, htext, hchunk, hafter⟩ := headChunk_of_scalar rest h
  rw [htext, scrub_cons, hchunk, hafter]

theorem scrub_stray_cons (rest : Bytes) : scrub (0xFF :: rest) = none :: scrub rest := by
  have hlength : scalarLength (0xFF :: rest) = 0 := rfl
  have hchunk : headChunk 0xFF rest = .stray 0xFF := by
    unfold headChunk
    rw [if_pos hlength]
  have hafter : afterHead 0xFF rest = rest := by
    unfold afterHead
    rw [hlength]
    rfl
  rw [scrub_cons, hchunk, hafter]

theorem scrub_fill (pieces : List (Option Bytes))
    (h : ∀ sequence, some sequence ∈ pieces → Scalar sequence) : scrub (fill pieces) = pieces := by
  induction pieces with
  | nil => rfl
  | cons piece pieces ih =>
    have hrest := ih fun sequence hm => h sequence (List.mem_cons_of_mem _ hm)
    cases piece with
    | none =>
      show scrub (0xFF :: fill pieces) = _
      rw [scrub_stray_cons, hrest]
    | some sequence =>
      show scrub (sequence ++ fill pieces) = _
      rw [scrub_scalar_append _ _ (h sequence List.mem_cons_self), hrest]

theorem scrub_mark (bs : Bytes) : scrub (mark bs) = scrub bs :=
  scrub_fill _ (scalar_of_mem_scrub bs)

theorem scrub_eq_nil (bs : Bytes) : scrub bs = [] ↔ bs = [] := by
  cases bs with
  | nil => exact ⟨fun _ => rfl, fun _ => rfl⟩
  | cons b bs => simp [scrub_cons]

theorem mark_eq_nil (bs : Bytes) : mark bs = [] ↔ bs = [] := by
  rw [← scrub_eq_nil (mark bs), scrub_mark, scrub_eq_nil]

theorem repair_scrub (bs : Bytes) (h : valid bs = true) : repair (scrub bs) = bs := by
  induction hlength : bs.length using Nat.strong_induction_on generalizing bs with
  | _ n ih =>
    cases bs with
    | nil => rfl
    | cons b bs =>
      unfold valid at h
      rw [chunks_cons, List.all_cons, Bool.and_eq_true] at h
      have hle := afterHead_length_le b bs
      rw [List.length_cons] at hlength
      have hrest := ih _ (by omega) (afterHead b bs) h.2 rfl
      rw [scrub_cons]
      cases hchunk : headChunk b bs with
      | stray byte =>
        rw [hchunk] at h
        cases h.1
      | scalar sequence =>
        rw [(scalar_headChunk hchunk).2]
        show sequence ++ repair (scrub (afterHead b bs)) = _
        rw [hrest]

/-- Every byte that is no part of a sequence replaced by U+FFFD. -/
def replaced (bs : Bytes) : Bytes := repair (scrub bs)

theorem valid_iff (bs : Bytes) : valid bs = true ↔ none ∉ scrub bs := by
  unfold valid scrub
  rw [List.all_eq_true, List.mem_map]
  constructor
  · rintro h ⟨chunk, hm, hnone⟩
    have hscalar := h chunk hm
    cases chunk with
    | scalar => cases hnone
    | stray => cases hscalar
  · intro h chunk hm
    cases chunk with
    | scalar => rfl
    | stray byte => exact absurd ⟨_, hm, rfl⟩ h

theorem scrub_repair (pieces : List (Option Bytes))
    (h : ∀ sequence, some sequence ∈ pieces → Scalar sequence) :
    scrub (repair pieces) = pieces.map fun piece => some (piece.getD [0xEF, 0xBF, 0xBD]) := by
  induction pieces with
  | nil => rfl
  | cons piece pieces ih =>
    have hrest := ih fun sequence hm => h sequence (List.mem_cons_of_mem _ hm)
    rw [List.map_cons, ← hrest]
    cases piece with
    | none => exact scrub_scalar_append _ _ ⟨by decide, by decide⟩
    | some sequence => exact scrub_scalar_append _ _ (h sequence List.mem_cons_self)

theorem valid_replaced (bs : Bytes) : valid (replaced bs) = true := by
  rw [valid_iff, replaced, scrub_repair _ (scalar_of_mem_scrub bs), List.mem_map]
  rintro ⟨piece, -, hnone⟩
  cases hnone

theorem replaced_valid {bs : Bytes} (h : valid bs = true) : replaced bs = bs := repair_scrub bs h

theorem replaced_eq_nil (bs : Bytes) : replaced bs = [] ↔ bs = [] := by
  rw [← scrub_eq_nil (replaced bs), replaced, scrub_repair _ (scalar_of_mem_scrub bs),
    List.map_eq_nil_iff, scrub_eq_nil]

theorem mark_valid {bs : Bytes} (h : valid bs = true) : mark bs = bs := by
  have hsame : ∀ pieces : List (Option Bytes), none ∉ pieces → fill pieces = repair pieces := by
    intro pieces hnone
    refine List.flatMap_congr fun piece hm => ?_
    cases piece with
    | none => exact absurd hm hnone
    | some sequence => rfl
  rw [mark, hsame _ ((valid_iff bs).mp h), repair_scrub bs h]

theorem mark_ascii (bs : Bytes) (h : ∀ b ∈ bs, b < 0x80) : mark bs = bs :=
  mark_valid (valid_of_ascii bs h)

end Foundations.Utf8
