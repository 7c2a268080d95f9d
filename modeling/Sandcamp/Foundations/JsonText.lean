import Sandcamp.Foundations.Json

/-!
# Reading back the text of a tree

`read` gives back the tree `write` wrote and leaves what follows it, so two trees with
one text are equal. Strings come first, piece by piece; then the trees, by induction on
the tree, with fuel for the length of the text.
-/

namespace Foundations.Json
open Utf8

/-! ### Strings -/

/-- The pieces a string can be cut into. -/
def Scrubbed (pieces : Pieces) : Prop := ∀ sequence, some sequence ∈ pieces → Scalar sequence

theorem scrubbed_scrub (bs : Bytes) : Scrubbed (scrub bs) := scalar_of_mem_scrub bs

theorem hexValue_hexDigit (n : ℕ) (h : n < 16) : hexValue (hexDigit n) = n := by
  have hall : ∀ n < 16, hexValue (hexDigit n) = n := by decide
  exact hall n h

/-- A sequence that is written as it stands. -/
theorem readPiece_sequence (b : UInt8) (tail rest : Bytes) (h : Scalar (b :: tail))
    (hquote : b ≠ 34) (hescape : b ≠ 92) :
    readPiece (b :: tail ++ rest) = some (some (some (b :: tail)), rest) := by
  obtain ⟨first, others, htext, hchunk, hafter⟩ := headChunk_of_scalar rest h
  rw [htext]
  have hfirst : first = b := (List.cons.inj htext).1.symm
  subst hfirst
  rw [readPiece, if_neg hquote, if_neg hescape, hchunk]
  simp only [hafter]

/-- The escape of an ASCII character. -/
theorem readPiece_escape (b : UInt8) (text rest : Bytes) (h : escape b = some text) :
    readPiece (text ++ rest) = some (some (some [b]), rest) := by
  unfold escape at h
  split_ifs at h with hself hback hform hnewline hreturn htab hcontrol
  · obtain rfl := Option.some.inj h
    rcases hself with rfl | rfl <;> rfl
  · obtain rfl := Option.some.inj h
    rw [hback]
    rfl
  · obtain rfl := Option.some.inj h
    rw [hform]
    rfl
  · obtain rfl := Option.some.inj h
    rw [hnewline]
    rfl
  · obtain rfl := Option.some.inj h
    rw [hreturn]
    rfl
  · obtain rfl := Option.some.inj h
    rw [htab]
    rfl
  · obtain rfl := Option.some.inj h
    have hhigh := hexValue_hexDigit (b.toNat / 16) (by have := b.toNat_lt; omega)
    have hlow := hexValue_hexDigit (b.toNat % 16) (Nat.mod_lt _ (by decide))
    generalize hexDigit (b.toNat / 16) = high at hhigh
    generalize hexDigit (b.toNat % 16) = low at hlow
    have hvalue : UInt8.ofNat (16 * hexValue high + hexValue low) = b := by
      rw [hhigh, hlow, Nat.div_add_mod]
      exact UInt8.ofNat_toNat
    have hescape : readEscape (117 :: 48 :: 48 :: high :: low :: rest) = some (some [b], rest) := by
      show (if [48, 48, high, low] = lit "fffd" then some (none, rest)
        else if [48, 48, high, low] = lit "2028" then some (some lineSeparator, rest)
        else if [48, 48, high, low] = lit "2029" then some (some paragraphSeparator, rest)
        else some (some [UInt8.ofNat (16 * hexValue high + hexValue low)], rest)) = _
      rw [if_neg (by simp [show lit "fffd" = [102, 102, 102, 100] by decide]),
        if_neg (by simp [show lit "2028" = [50, 48, 50, 56] by decide]),
        if_neg (by simp [show lit "2029" = [50, 48, 50, 57] by decide]), hvalue]
    rw [show lit "\\u00" = [92, 117, 48, 48] by decide]
    show readPiece (92 :: 117 :: 48 :: 48 :: high :: low :: rest) = _
    rw [readPiece, if_neg (by decide), if_pos rfl, hescape]
    rfl

theorem readPiece_write (piece : Option Bytes) (rest : Bytes)
    (h : ∀ sequence, piece = some sequence → Scalar sequence) :
    readPiece (writePiece piece ++ rest) = some (some piece, rest) := by
  match piece with
  | none => rfl
  | some [] => exact absurd rfl (h [] rfl).1
  | some [b] =>
    have hscalar := h [b] rfl
    show readPiece ((escape b).getD [b] ++ rest) = _
    cases hescape : escape b with
    | some text => exact readPiece_escape b text rest hescape
    | none =>
      refine readPiece_sequence b [] rest hscalar ?_ ?_
      · rintro rfl
        cases hescape
      · rintro rfl
        cases hescape
  | some (b :: c :: tail) =>
    have hscalar := h _ rfl
    have hlead : ¬b < 0x80 := by
      intro hascii
      have hone := scalarLength_ascii b (c :: tail) hascii
      rw [hscalar.2] at hone
      simp at hone
    show readPiece ((if b :: c :: tail = lineSeparator then lit "\\u2028"
      else if b :: c :: tail = paragraphSeparator then lit "\\u2029"
      else b :: c :: tail) ++ rest) = _
    split
    · rename_i hline
      rw [hline]
      rfl
    · split
      · rename_i hparagraph
        rw [hparagraph]
        rfl
      · refine readPiece_sequence b (c :: tail) rest hscalar ?_ ?_
        · rintro rfl
          exact hlead (by decide)
        · rintro rfl
          exact hlead (by decide)

theorem readBody_write (pieces : Pieces) (rest : Bytes) (fuel : ℕ) (h : Scrubbed pieces)
    (hfuel : pieces.length < fuel) :
    readBody fuel (writeBody pieces ++ rest) = some (pieces, rest) := by
  induction pieces generalizing fuel with
  | nil =>
    obtain ⟨fuel, rfl⟩ := Nat.exists_eq_succ_of_ne_zero (Nat.ne_of_gt hfuel)
    rfl
  | cons piece pieces ih =>
    cases fuel with
    | zero => exact absurd hfuel (Nat.not_lt_zero _)
    | succ fuel =>
      have hrest : Scrubbed pieces := fun sequence hm => h sequence (List.mem_cons_of_mem _ hm)
      rw [List.length_cons] at hfuel
      have hpiece := readPiece_write piece (writeBody pieces ++ rest)
        fun sequence hs => h sequence (hs ▸ List.mem_cons_self)
      have htext : writeBody (piece :: pieces) ++ rest =
          writePiece piece ++ (writeBody pieces ++ rest) := by
        unfold writeBody
        simp only [List.flatMap_cons, List.append_assoc]
      rw [htext]
      unfold readBody
      rw [hpiece]
      show (readBody fuel (writeBody pieces ++ rest)).bind _ = _
      rw [ih fuel hrest (by omega)]
      rfl

theorem writePiece_ne_nil (piece : Option Bytes)
    (h : ∀ sequence, piece = some sequence → Scalar sequence) : writePiece piece ≠ [] := by
  intro hnil
  have hread := readPiece_write piece [] h
  rw [hnil] at hread
  cases hread

theorem length_le_writeBody (pieces : Pieces) (h : Scrubbed pieces) :
    pieces.length < (writeBody pieces).length := by
  unfold writeBody
  rw [List.length_append]
  suffices hle : pieces.length ≤ (pieces.flatMap writePiece).length by
    simp only [List.length_singleton]
    omega
  induction pieces with
  | nil => exact Nat.le_refl _
  | cons piece pieces ih =>
    have hpos := List.length_pos_iff.mpr (writePiece_ne_nil piece
      fun sequence hs => h sequence (hs ▸ List.mem_cons_self))
    have hrest := ih fun sequence hm => h sequence (List.mem_cons_of_mem _ hm)
    rw [List.flatMap_cons, List.length_append, List.length_cons]
    omega

/-! ### Numbers -/

/-- What may follow a number. -/
def NoDigit (rest : Bytes) : Prop := ∀ b, rest.head? = some b → isAsciiDigit b = false

theorem noDigit_cons (b : UInt8) (rest : Bytes) (h : isAsciiDigit b = false) :
    NoDigit (b :: rest) := by
  intro c hc
  obtain rfl := Option.some.inj hc
  exact h

theorem takeWhile_decimal (n : ℕ) (rest : Bytes) (h : NoDigit rest) :
    (decimal n ++ rest).takeWhile isAsciiDigit = decimal n := by
  rw [List.takeWhile_append_of_pos (decimal_isAsciiDigit n)]
  cases rest with
  | nil => simp
  | cons b rest => rw [List.takeWhile_cons_of_neg (by simp [h b rfl]), List.append_nil]

theorem dropWhile_decimal (n : ℕ) (rest : Bytes) (h : NoDigit rest) :
    (decimal n ++ rest).dropWhile isAsciiDigit = rest := by
  rw [List.dropWhile_append_of_pos (decimal_isAsciiDigit n)]
  cases rest with
  | nil => rfl
  | cons b rest => rw [List.dropWhile_cons_of_neg (by simp [h b rfl])]

theorem decimal_cons (n : ℕ) : ∃ b text, decimal n = b :: text ∧ isAsciiDigit b = true := by
  cases htext : decimal n with
  | nil => exact absurd htext (decimal_ne_nil n)
  | cons b text =>
    refine ⟨b, text, rfl, decimal_isAsciiDigit n b ?_⟩
    rw [htext]
    exact List.mem_cons_self

theorem read_integer (n : ℤ) (rest : Bytes) (fuel : ℕ) (h : NoDigit rest) :
    read (fuel + 1) (integer n ++ rest) = some (.number n, rest) := by
  unfold integer
  split
  · rename_i hneg
    have hvalue : -(n.natAbs : ℤ) = n := by omega
    rw [List.cons_append, read, if_neg (by decide), if_neg (by decide), if_neg (by decide),
      if_neg (by decide), if_neg (by decide), if_neg (by decide), if_pos rfl,
      takeWhile_decimal _ _ h, dropWhile_decimal _ _ h, digitsValue_decimal, hvalue]
  · rename_i hpos
    have hvalue : (n.natAbs : ℤ) = n := by omega
    obtain ⟨b, text, htext, hdigit⟩ := decimal_cons n.natAbs
    have hother : ∀ c, isAsciiDigit c = false → b ≠ c := by
      rintro c hc rfl
      rw [hc] at hdigit
      cases hdigit
    have htake := takeWhile_decimal n.natAbs rest h
    have hdrop := dropWhile_decimal n.natAbs rest h
    have hdigits := digitsValue_decimal n.natAbs
    rw [htext, List.cons_append] at htake hdrop ⊢
    rw [htext] at hdigits
    rw [read, if_neg (hother _ (by decide)), if_neg (hother _ (by decide)),
      if_neg (hother _ (by decide)), if_neg (hother _ (by decide)),
      if_neg (hother _ (by decide)), if_neg (hother _ (by decide)),
      if_neg (hother _ (by decide)), htake, hdrop, hdigits, hvalue]

/-! ### Trees -/

/-- No text of a value starts like the end of an array. -/
theorem write_cons (v : Json Pieces) : ∃ b text, write v = b :: text ∧ b ≠ 93 := by
  match v with
  | .null => exact ⟨_, _, rfl, by decide⟩
  | .bool true => exact ⟨_, _, rfl, by decide⟩
  | .bool false => exact ⟨_, _, rfl, by decide⟩
  | .number n =>
    rw [write]
    unfold integer
    split
    · exact ⟨_, _, rfl, by decide⟩
    · obtain ⟨b, text, htext, hdigit⟩ := decimal_cons n.natAbs
      refine ⟨b, text, htext, ?_⟩
      rintro rfl
      cases hdigit
  | .string s => exact ⟨_, _, by rw [write], by decide⟩
  | .array [] => exact ⟨_, _, rfl, by decide⟩
  | .array (item :: rest) => exact ⟨_, _, by rw [write], by decide⟩
  | .object [] => exact ⟨_, _, rfl, by decide⟩
  | .object ((key, value) :: rest) => exact ⟨_, _, by rw [write], by decide⟩

theorem noDigit_writeItems (items : List (Json Pieces)) (rest : Bytes) :
    NoDigit (writeItems items ++ rest) := by
  cases items with
  | nil => exact noDigit_cons _ _ (by decide)
  | cons item items =>
    rw [writeItems]
    exact noDigit_cons _ _ (by decide)

theorem noDigit_writeMembers (members : List (Pieces × Json Pieces)) (rest : Bytes) :
    NoDigit (writeMembers members ++ rest) := by
  cases members with
  | nil => exact noDigit_cons _ _ (by decide)
  | cons member members =>
    obtain ⟨key, value⟩ := member
    rw [writeMembers]
    exact noDigit_cons _ _ (by decide)

theorem readBody_enough (key : Pieces) (rest : Bytes) (h : Scrubbed key) :
    readBody ((writeBody key ++ rest).length + 1) (writeBody key ++ rest) = some (key, rest) := by
  have hlength := length_le_writeBody key h
  rw [List.length_append]
  exact readBody_write key rest _ h (by omega)

/-- A member after its key: the fuel left by the key reads the value. -/
theorem readMember_write (key : Pieces) (value : Json Pieces) (rest : Bytes) (fuel : ℕ)
    (hkey : Scrubbed key) (hvalue : read fuel (write value ++ rest) = some (value, rest)) :
    readMember (fuel + 1) (34 :: (writeBody key ++ 58 :: (write value ++ rest))) =
      some ((key, value), rest) := by
  have hbody := readBody_write key (58 :: (write value ++ rest))
    ((34 :: (writeBody key ++ 58 :: (write value ++ rest))).length + 1) hkey
  have hlength := length_le_writeBody key hkey
  rw [readMember, List.tail_cons, hbody (by simp only [List.length_cons, List.length_append]; omega)]
  show (read fuel (write value ++ rest)).bind _ = _
  rw [hvalue]
  rfl

mutual

theorem read_write (q : ℤ → Prop) (depth : ℕ) (fuel : ℕ) (rest : Bytes) :
    (v : Json Pieces) → Within Scrubbed q depth v → (write v).length ≤ fuel → NoDigit rest →
      read fuel (write v ++ rest) = some (v, rest)
  | v, hin, hfuel, hrest => by
    obtain ⟨b, text, htext, -⟩ := write_cons v
    have hpos : 0 < fuel := by
      rw [htext, List.length_cons] at hfuel
      omega
    obtain ⟨fuel, rfl⟩ := Nat.exists_eq_succ_of_ne_zero hpos.ne'
    match v, hin, hfuel with
    | .null, _, _ => rfl
    | .bool true, _, _ => rfl
    | .bool false, _, _ => rfl
    | .number n, _, _ =>
      rw [write]
      exact read_integer n rest fuel hrest
    | .string s, hin, _ =>
      have hs : Scrubbed s := by simpa only [Within] using hin
      rw [write, List.cons_append, read, if_pos rfl, readBody_enough s rest hs]
      rfl
    | .array [], _, _ => rfl
    | .array (item :: items), hin, hfuel =>
      cases depth with
      | zero => simp only [Within] at hin
      | succ depth =>
        simp only [Within, WithinItems] at hin
        simp only [write, List.length_cons, List.length_append] at hfuel
        have hitem := read_write q depth fuel (writeItems items ++ rest) item hin.1 (by omega)
          (noDigit_writeItems items rest)
        have hitems := readItems_write q depth fuel rest items hin.2 (by omega)
        obtain ⟨b, text, htext, hclose⟩ := write_cons item
        have hhead : ((write item ++ writeItems items) ++ rest).head? ≠ some 93 := by
          rw [htext]
          simpa using hclose
        rw [write, List.cons_append, read, if_neg (by decide), if_pos rfl, if_neg hhead,
          List.append_assoc, hitem]
        show (readItems fuel (writeItems items ++ rest)).bind _ = _
        rw [hitems]
        rfl
    | .object [], _, _ => rfl
    | .object ((key, value) :: members), hin, hfuel =>
      cases depth with
      | zero => simp only [Within] at hin
      | succ depth =>
        simp only [Within, WithinMembers] at hin
        simp only [write, List.length_cons, List.length_append] at hfuel
        obtain ⟨fuel, rfl⟩ := Nat.exists_eq_succ_of_ne_zero (show fuel ≠ 0 by omega)
        have hvalue := read_write q depth fuel (writeMembers members ++ rest) value hin.2.1
          (by omega) (noDigit_writeMembers members rest)
        have hmember := readMember_write key value _ fuel hin.1 hvalue
        have hmembers := readMembers_write q depth (fuel + 1) rest members hin.2.2 (by omega)
        rw [write]
        simp only [List.cons_append, List.append_assoc]
        rw [read, if_neg (by decide), if_neg (by decide), if_pos rfl,
          if_neg (by simp), hmember]
        show (readMembers (fuel + 1) (writeMembers members ++ rest)).bind _ = _
        rw [hmembers]
        rfl

theorem readItems_write (q : ℤ → Prop) (depth : ℕ) (fuel : ℕ) (rest : Bytes) :
    (items : List (Json Pieces)) → WithinItems Scrubbed q depth items →
      (writeItems items).length ≤ fuel →
      readItems fuel (writeItems items ++ rest) = some (items, rest)
  | [], _, hfuel => by
    obtain ⟨fuel, rfl⟩ := Nat.exists_eq_succ_of_ne_zero (show fuel ≠ 0 by
      rintro rfl
      cases hfuel)
    rfl
  | item :: items, hin, hfuel => by
    simp only [WithinItems] at hin
    simp only [writeItems, List.length_cons, List.length_append] at hfuel
    obtain ⟨fuel, rfl⟩ := Nat.exists_eq_succ_of_ne_zero (show fuel ≠ 0 by omega)
    have hitem := read_write q depth fuel (writeItems items ++ rest) item hin.1 (by omega)
      (noDigit_writeItems items rest)
    have hitems := readItems_write q depth fuel rest items hin.2 (by omega)
    rw [writeItems, List.cons_append, readItems, if_neg (by decide), List.append_assoc, hitem]
    show (readItems fuel (writeItems items ++ rest)).bind _ = _
    rw [hitems]
    rfl

theorem readMembers_write (q : ℤ → Prop) (depth : ℕ) (fuel : ℕ) (rest : Bytes) :
    (members : List (Pieces × Json Pieces)) → WithinMembers Scrubbed q depth members →
      (writeMembers members).length ≤ fuel →
      readMembers fuel (writeMembers members ++ rest) = some (members, rest)
  | [], _, hfuel => by
    obtain ⟨fuel, rfl⟩ := Nat.exists_eq_succ_of_ne_zero (show fuel ≠ 0 by
      rintro rfl
      cases hfuel)
    rfl
  | (key, value) :: members, hin, hfuel => by
    simp only [WithinMembers] at hin
    simp only [writeMembers, List.length_cons, List.length_append] at hfuel
    obtain ⟨fuel, rfl⟩ := Nat.exists_eq_succ_of_ne_zero (show fuel ≠ 0 by omega)
    obtain ⟨fuel, rfl⟩ := Nat.exists_eq_succ_of_ne_zero (show fuel ≠ 0 by omega)
    have hvalue := read_write q depth fuel (writeMembers members ++ rest) value hin.2.1
      (by omega) (noDigit_writeMembers members rest)
    have hmember := readMember_write key value _ fuel hin.1 hvalue
    have hmembers := readMembers_write q depth (fuel + 1) rest members hin.2.2 (by omega)
    rw [writeMembers]
    simp only [List.cons_append, List.append_assoc]
    rw [readMembers, if_neg (by decide), hmember]
    show (readMembers (fuel + 1) (writeMembers members ++ rest)).bind _ = _
    rw [hmembers]
    rfl

end

theorem readText_write (q : ℤ → Prop) (depth : ℕ) (v : Json Pieces)
    (h : Within Scrubbed q depth v) : readText (write v) = some v := by
  have hread := read_write q depth ((write v).length + 1) [] v h (Nat.le_succ _)
    (fun b hb => by cases hb)
  rw [List.append_nil] at hread
  unfold readText
  rw [hread]

theorem write_injective (q : ℤ → Prop) (depth : ℕ) (v w : Json Pieces)
    (hv : Within Scrubbed q depth v) (hw : Within Scrubbed q depth w) (h : write v = write w) :
    v = w := by
  have hread := readText_write q depth v hv
  rw [h, readText_write q depth w hw] at hread
  exact (Option.some.inj hread).symm

/-! ### What takes the place of stray bytes -/

/-- How an encoder writes the U+FFFD that takes the place of a byte outside UTF-8. -/
inductive Replacement where
  /-- As an escape, by which it differs from a U+FFFD of the string. -/
  | escaped
  /-- As the character itself. -/
  | literal
  deriving DecidableEq

namespace Replacement

/-- The string cut up for `write`. -/
def pieces : Replacement → Bytes → Pieces
  | .escaped, bs => scrub bs
  | .literal, bs => scrub (replaced bs)

/-- What the text tells of a string: where stray bytes are, or nothing of them. -/
def kept : Replacement → Bytes → Bytes
  | .escaped, bs => mark bs
  | .literal, bs => replaced bs

variable (replacement : Replacement)

theorem scrubbed_pieces (bs : Bytes) : Scrubbed (replacement.pieces bs) := by
  cases replacement with
  | escaped => exact scrubbed_scrub bs
  | literal => exact scrubbed_scrub (replaced bs)

theorem fill_pieces (bs : Bytes) : fill (replacement.pieces bs) = replacement.kept bs := by
  cases replacement with
  | escaped => rfl
  | literal => exact mark_valid (valid_replaced bs)

theorem pieces_kept (bs : Bytes) :
    replacement.pieces (replacement.kept bs) = replacement.pieces bs := by
  cases replacement with
  | escaped => exact scrub_mark bs
  | literal => exact congrArg scrub (replaced_valid (valid_replaced bs))

/-- A reader gets U+FFFD from either text. -/
theorem repair_pieces (bs : Bytes) : repair (replacement.pieces bs) = replaced bs := by
  cases replacement with
  | escaped => rfl
  | literal => exact replaced_valid (valid_replaced bs)

theorem kept_ascii (bs : Bytes) (h : ∀ b ∈ bs, b < 0x80) : replacement.kept bs = bs := by
  cases replacement with
  | escaped => exact mark_ascii bs h
  | literal => exact replaced_valid (valid_of_ascii bs h)

theorem kept_eq_nil (bs : Bytes) : replacement.kept bs = [] ↔ bs = [] := by
  cases replacement with
  | escaped => exact mark_eq_nil bs
  | literal => exact replaced_eq_nil bs

end Replacement

end Foundations.Json
