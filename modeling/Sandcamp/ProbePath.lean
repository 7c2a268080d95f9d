import Sandcamp.Agreement
import Sandcamp.Campd.HttpProbe

/-!
# Probe paths: two scanners, one grammar, one request line

`valid_http_origin_form` (spec.rs:448-472) moves its index at the end of a round,
`validHTTPOriginForm` (spec.go:426-455) between rounds; both read escapes by index. The
scanners here keep every index that could be out of range, and both compute the
recursion `originFormFrom` over the rest of the path. What they accept is a slash and
then single characters and complete escapes, so the request line of a probe has three
words, and no path can end it.
-/

namespace Sandcamp.ProbePath
open Foundations Foundations.UnixPath Sandcamp.Sdk Sandcamp.Campd Sandcamp.Agreement

/-! ### The two scanners -/

/-- `index + 2 >= len || !hex(bytes[index + 1]) || !hex(bytes[index + 2])`. -/
def escapeRejected (hex : UInt8 → Bool) (bytes : Bytes) (index : ℕ) :
    Except (Failure Unit) Bool :=
  if bytes.length ≤ index + 2 then .ok true
  else do
    let high ← expect bytes[index + 1]?
    if hex high = false then .ok true
    else do
      let low ← expect bytes[index + 2]?
      .ok (!hex low)

/-- The `while` loop of `valid_http_origin_form`; the error is that `fuel` rounds were not
enough. -/
def scanWhile (bytes : Bytes) : ℕ → ℕ → Except (Failure Unit) Bool
  | 0, _ => .error (.error ())
  | fuel + 1, index =>
    if index < bytes.length then do
      let character ← expect bytes[index]?
      if character = 37 then do
        let rejected ← escapeRejected isAsciiHexdigit bytes index
        if rejected then .ok false else scanWhile bytes fuel (index + 3)
      else if isAsciiAlphanumeric character || originPunctuation.contains character then
        scanWhile bytes fuel (index + 1)
      else .ok false
    else .ok true

/-- `valid_http_origin_form` (`spec.rs:448-472`). -/
def scanHttpOriginForm (bytes : Bytes) : Except (Failure Unit) Bool :=
  if bytes.head? = some slash then scanWhile bytes (bytes.length + 1) 0 else .ok false

/-- `strings.ContainsRune(s, rune(value))`: the rune of a high byte has two bytes. -/
def containsRune (s : Bytes) (value : UInt8) : Bool :=
  if value < 0x80 then s.contains value
  else decide ([(0xC0 : UInt8) ||| (value >>> 6), 0x80 ||| (value &&& 0x3F)] <:+: s)

/-- `isHTTPOriginCharacter` (`spec.go:446-451`). -/
def isHTTPOriginRune (value : UInt8) : Bool :=
  (65 ≤ value && value ≤ 90) || (97 ≤ value && value ≤ 122) || (48 ≤ value && value ≤ 57) ||
    containsRune (lit "-._~!$&'()*+,;=:@/?") value

/-- The body of the `for` loop: `none` returns false, otherwise the index it leaves to the
post statement. -/
def forBody (value : Bytes) (index : ℕ) : Except (Failure Unit) (Option ℕ) := do
  let character ← expect value[index]?
  if character = 37 then do
    let rejected ← escapeRejected isHex value index
    .ok (if rejected then none else some (index + 2))
  else .ok (if isHTTPOriginRune character then some index else none)

def scanFor (value : Bytes) : ℕ → ℕ → Except (Failure Unit) Bool
  | 0, _ => .error (.error ())
  | fuel + 1, index =>
    if index < value.length then do
      match ← forBody value index with
      | none => .ok false
      | some index => scanFor value fuel (index + 1)
    else .ok true

/-- `validHTTPOriginForm` (`spec.go:426-444`). -/
def scanHTTPOriginForm (value : Bytes) : Except (Failure Unit) Bool :=
  if hasRoot value then scanFor value (value.length + 1) 0 else .ok false

/-! ### No index is out of range -/

theorem containsRune_ascii (s : Bytes) (value : UInt8) (h : ∀ b ∈ s, b < 0x80) :
    containsRune s value = s.contains value := by
  unfold containsRune
  by_cases hlow : value < 0x80
  · rw [if_pos hlow]
  · rw [if_neg hlow]
    have hlead : (0xC0 : UInt8) ||| (value >>> 6) ∉ s := by
      intro hm
      have hlt := h _ hm
      have hle : 192 ≤ 192 ||| (value >>> 6).toNat := Nat.left_le_or
      simp only [UInt8.lt_iff_toNat_lt, UInt8.toNat_or, UInt8.reduceToNat] at hlt
      omega
    have hleft : ¬[(0xC0 : UInt8) ||| (value >>> 6), 0x80 ||| (value &&& 0x3F)] <:+: s := by
      intro hin
      exact hlead (hin.subset List.mem_cons_self)
    have hright : value ∉ s := fun hm => hlow (h value hm)
    simp [hleft, hright]

theorem isHTTPOriginRune_eq (value : UInt8) :
    isHTTPOriginRune value = isHTTPOriginCharacter value := by
  unfold isHTTPOriginRune isHTTPOriginCharacter
  rw [containsRune_ascii _ _ (ascii_of_all rfl)]

/-- Whether the bytes behind a percent sign are no escape. -/
def cutEscape (hex : UInt8 → Bool) : Bytes → Bool
  | high :: low :: _ => !(hex high && hex low)
  | _ => true

theorem escapeRejected_eq (hex : UInt8 → Bool) (bytes : Bytes) (index : ℕ) :
    escapeRejected hex bytes index = .ok (cutEscape hex (bytes.drop (index + 1))) := by
  have hlength : (bytes.drop (index + 1)).length = bytes.length - (index + 1) :=
    List.length_drop
  have hhigh : bytes[index + 1]? = (bytes.drop (index + 1))[0]? := by
    rw [List.getElem?_drop]
  have hlow : bytes[index + 2]? = (bytes.drop (index + 1))[1]? := by
    rw [List.getElem?_drop]
  generalize bytes.drop (index + 1) = rest at hlength hhigh hlow
  unfold escapeRejected
  cases rest with
  | nil =>
    rw [List.length_nil] at hlength
    rw [if_pos (by omega)]
    rfl
  | cons high rest =>
    cases rest with
    | nil =>
      rw [List.length_cons, List.length_nil] at hlength
      rw [if_pos (by omega)]
      rfl
    | cons low rest =>
      rw [List.length_cons, List.length_cons] at hlength
      rw [if_neg (by omega), hhigh, hlow]
      cases hh : hex high <;> simp [cutEscape, expect, hh, bind, Except.bind]

theorem cutEscape_eq_false (hex : UInt8 → Bool) (rest : Bytes) :
    cutEscape hex rest = false ↔ ∃ high low tail, rest = high :: low :: tail ∧
      hex high = true ∧ hex low = true := by
  cases rest with
  | nil => simp [cutEscape]
  | cons high rest =>
    cases rest with
    | nil => simp [cutEscape]
    | cons low rest => simp [cutEscape]

theorem originFormFrom_percent (rest : Bytes) :
    originFormFrom (37 :: rest) =
      if cutEscape isAsciiHexdigit rest = true then false else originFormFrom (rest.drop 2) := by
  cases rest with
  | nil => rfl
  | cons high rest =>
    cases rest with
    | nil => rfl
    | cons low rest =>
      rw [originFormFrom_escape]
      cases h : isAsciiHexdigit high && isAsciiHexdigit low <;> simp [cutEscape, h]

/-- One round at a byte of the path, for both loops. -/
theorem originFormFrom_round (bytes : Bytes) (index : ℕ) (character : UInt8)
    (h : bytes[index]? = some character) :
    originFormFrom (bytes.drop index) =
      if character = 37 then
        if cutEscape isAsciiHexdigit (bytes.drop (index + 1)) = true then false
        else originFormFrom (bytes.drop (index + 3))
      else if isAsciiAlphanumeric character || originPunctuation.contains character then
        originFormFrom (bytes.drop (index + 1))
      else false := by
  obtain ⟨hlt, hget⟩ := List.getElem?_eq_some_iff.mp h
  rw [List.drop_eq_getElem_cons hlt, hget]
  by_cases hescape : character = 37
  · rw [if_pos hescape, hescape, originFormFrom_percent, List.drop_drop]
  · rw [if_neg hescape, originFormFrom_other _ _ hescape]

theorem escape_within (bytes : Bytes) (index : ℕ) (hex : UInt8 → Bool)
    (h : cutEscape hex (bytes.drop (index + 1)) = false) : index + 3 ≤ bytes.length := by
  obtain ⟨high, low, tail, htail, -, -⟩ := (cutEscape_eq_false _ _).mp h
  have hlength := congrArg List.length htail
  rw [List.length_drop, List.length_cons, List.length_cons] at hlength
  omega

theorem scanWhile_eq (bytes : Bytes) (fuel index : ℕ) (hindex : index ≤ bytes.length)
    (h : bytes.length < index + fuel) :
    scanWhile bytes fuel index = .ok (originFormFrom (bytes.drop index)) := by
  induction fuel generalizing index with
  | zero => omega
  | succ fuel ih =>
    rw [scanWhile]
    by_cases hlt : index < bytes.length
    · have hget := List.getElem?_eq_getElem hlt
      rw [if_pos hlt, hget, originFormFrom_round bytes index _ hget, escapeRejected_eq]
      simp only [expect, bind, Except.bind]
      by_cases hescape : bytes[index] = 37
      · rw [if_pos hescape, if_pos hescape]
        by_cases hcut : cutEscape isAsciiHexdigit (bytes.drop (index + 1)) = true
        · rw [if_pos hcut, if_pos hcut]
        · have hwithin := escape_within bytes index _ (Bool.eq_false_iff.mpr hcut)
          rw [if_neg hcut, if_neg hcut, ih (index + 3) hwithin (by omega)]
      · rw [if_neg hescape, if_neg hescape, ih (index + 1) (by omega) (by omega)]
        by_cases hallowed : (isAsciiAlphanumeric bytes[index] ||
            originPunctuation.contains bytes[index]) = true
        · rw [if_pos hallowed, if_pos hallowed]
        · rw [if_neg hallowed, if_neg hallowed]
    · rw [if_neg hlt, List.drop_eq_nil_of_le (by omega)]
      rfl

theorem cutEscape_isHex (rest : Bytes) : cutEscape isHex rest = cutEscape isAsciiHexdigit rest := by
  have hhex : isHex = isAsciiHexdigit := funext isHex_eq
  rw [hhex]

theorem scanFor_eq (value : Bytes) (fuel index : ℕ) (hindex : index ≤ value.length)
    (h : value.length < index + fuel) :
    scanFor value fuel index = .ok (originFormFrom (value.drop index)) := by
  induction fuel generalizing index with
  | zero => omega
  | succ fuel ih =>
    rw [scanFor]
    by_cases hlt : index < value.length
    · have hget := List.getElem?_eq_getElem hlt
      rw [if_pos hlt, forBody, hget, originFormFrom_round value index _ hget, escapeRejected_eq,
        cutEscape_isHex]
      simp only [expect, bind, Except.bind, isHTTPOriginRune_eq, isHTTPOriginCharacter_eq]
      by_cases hescape : value[index] = 37
      · rw [if_pos hescape, if_pos hescape]
        by_cases hcut : cutEscape isAsciiHexdigit (value.drop (index + 1)) = true
        · rw [if_pos hcut, if_pos hcut]
        · have hwithin := escape_within value index _ (Bool.eq_false_iff.mpr hcut)
          rw [if_neg hcut, if_neg hcut]
          exact ih (index + 3) hwithin (by omega)
      · rw [if_neg hescape, if_neg hescape]
        by_cases hallowed : (isAsciiAlphanumeric value[index] ||
            originPunctuation.contains value[index]) = true
        · rw [if_pos hallowed, if_pos hallowed]
          exact ih (index + 1) (by omega) (by omega)
        · rw [if_neg hallowed, if_neg hallowed]
    · rw [if_neg hlt, List.drop_eq_nil_of_le (by omega)]
      rfl

theorem scanHttpOriginForm_eq (bytes : Bytes) :
    scanHttpOriginForm bytes = .ok (validHttpOriginForm bytes) := by
  unfold scanHttpOriginForm validHttpOriginForm
  by_cases hroot : bytes.head? = some slash
  · rw [if_pos hroot, if_pos hroot, scanWhile_eq bytes _ 0 (by omega) (by omega), List.drop_zero]
  · rw [if_neg hroot, if_neg hroot]

theorem scanHTTPOriginForm_eq (value : Bytes) :
    scanHTTPOriginForm value = .ok (validHttpOriginForm value) := by
  unfold scanHTTPOriginForm validHttpOriginForm hasRoot
  by_cases hroot : value.head? = some slash
  · rw [if_pos (by simp [hroot]), if_pos hroot, scanFor_eq value _ 0 (by omega) (by omega),
      List.drop_zero]
  · rw [if_neg (by simp [hroot]), if_neg hroot]

/-! ### The grammar -/

/-- One allowed character, or one complete escape. -/
inductive Piece : Bytes → Prop where
  | character (c : UInt8) (h : isAsciiAlphanumeric c = true ∨ c ∈ originPunctuation) : Piece [c]
  | escape (high low : UInt8) (hhigh : isAsciiHexdigit high = true)
      (hlow : isAsciiHexdigit low = true) : Piece [37, high, low]

def OriginForm (value : Bytes) : Prop :=
  ∃ pieces : List Bytes, value = slash :: pieces.flatten ∧ ∀ piece ∈ pieces, Piece piece

theorem allowed_iff (c : UInt8) :
    (isAsciiAlphanumeric c || originPunctuation.contains c) = true ↔
      isAsciiAlphanumeric c = true ∨ c ∈ originPunctuation := by
  rw [Bool.or_eq_true, List.contains_iff_mem]

theorem percent_not_allowed :
    ¬(isAsciiAlphanumeric 37 = true ∨ 37 ∈ originPunctuation) := by decide

theorem originFormFrom_piece (piece rest : Bytes) (h : Piece piece) :
    originFormFrom (piece ++ rest) = originFormFrom rest := by
  cases h with
  | character c hc =>
    have hne : c ≠ 37 := by
      intro heq
      rw [heq] at hc
      exact percent_not_allowed hc
    rw [List.cons_append, List.nil_append, originFormFrom_other c rest hne,
      if_pos ((allowed_iff c).mpr hc)]
  | escape high low hhigh hlow =>
    show originFormFrom (37 :: high :: low :: rest) = _
    rw [originFormFrom_escape, hhigh, hlow]
    rfl

theorem originFormFrom_pieces (pieces : List Bytes) (h : ∀ piece ∈ pieces, Piece piece) :
    originFormFrom pieces.flatten = true := by
  induction pieces with
  | nil => rfl
  | cons piece pieces ih =>
    rw [List.flatten_cons, originFormFrom_piece piece _ (h piece List.mem_cons_self)]
    exact ih fun other hm => h other (List.mem_cons_of_mem _ hm)

theorem pieces_of_originFormFrom (value : Bytes) (h : originFormFrom value = true) :
    ∃ pieces : List Bytes, value = pieces.flatten ∧ ∀ piece ∈ pieces, Piece piece := by
  induction hlength : value.length using Nat.strong_induction_on generalizing value with
  | _ n ih =>
    cases value with
    | nil => exact ⟨[], rfl, fun _ hm => absurd hm List.not_mem_nil⟩
    | cons character rest =>
      rw [List.length_cons] at hlength
      by_cases hescape : character = 37
      · rw [hescape, originFormFrom_percent] at h
        by_cases hcut : cutEscape isAsciiHexdigit rest = true
        · rw [if_pos hcut] at h
          cases h
        · rw [if_neg hcut] at h
          obtain ⟨high, low, tail, rfl, hhigh, hlow⟩ :=
            (cutEscape_eq_false _ _).mp (Bool.eq_false_iff.mpr hcut)
          rw [List.length_cons, List.length_cons] at hlength
          obtain ⟨pieces, hflat, hpieces⟩ := ih tail.length (by omega) tail h rfl
          refine ⟨[37, high, low] :: pieces, ?_, ?_⟩
          · rw [List.flatten_cons, ← hflat, hescape]
            rfl
          · rw [List.forall_mem_cons]
            exact ⟨Piece.escape high low hhigh hlow, hpieces⟩
      · rw [originFormFrom_other _ _ hescape] at h
        by_cases hallowed : (isAsciiAlphanumeric character ||
            originPunctuation.contains character) = true
        · rw [if_pos hallowed] at h
          obtain ⟨pieces, hflat, hpieces⟩ := ih rest.length (by omega) rest h rfl
          refine ⟨[character] :: pieces, ?_, ?_⟩
          · rw [List.flatten_cons, ← hflat]
            rfl
          · rw [List.forall_mem_cons]
            exact ⟨Piece.character character ((allowed_iff character).mp hallowed), hpieces⟩
        · rw [if_neg hallowed] at h
          cases h

theorem validHttpOriginForm_iff (value : Bytes) :
    validHttpOriginForm value = true ↔ OriginForm value := by
  have hslash : Piece [slash] := Piece.character slash (by decide)
  unfold validHttpOriginForm
  by_cases hroot : value.head? = some slash
  · rw [if_pos hroot]
    obtain ⟨rest, rfl⟩ : ∃ rest, value = slash :: rest := by
      cases value with
      | nil => cases hroot
      | cons b rest =>
        obtain rfl := Option.some.inj hroot
        exact ⟨rest, rfl⟩
    have hrest : originFormFrom (slash :: rest) = originFormFrom rest :=
      originFormFrom_piece [slash] rest hslash
    rw [hrest]
    constructor
    · intro h
      obtain ⟨pieces, hflat, hpieces⟩ := pieces_of_originFormFrom rest h
      exact ⟨pieces, by rw [hflat], hpieces⟩
    · rintro ⟨pieces, hflat, hpieces⟩
      obtain ⟨-, rfl⟩ := List.cons.inj hflat
      exact originFormFrom_pieces pieces hpieces
  · rw [if_neg hroot]
    constructor
    · intro h
      cases h
    · rintro ⟨pieces, rfl, -⟩
      exact absurd rfl hroot

/-! ### The request -/

theorem hexdigit_visible (b : UInt8) (h : isAsciiHexdigit b = true) : 32 < b ∧ b < 127 := by
  simp only [isAsciiHexdigit, isAsciiDigit, Bool.or_eq_true, Bool.and_eq_true,
    decide_eq_true_eq, UInt8.le_iff_toNat_le, UInt8.lt_iff_toNat_lt, UInt8.reduceToNat] at h ⊢
  omega

theorem alphanumeric_visible (b : UInt8) (h : isAsciiAlphanumeric b = true) :
    32 < b ∧ b < 127 := by
  rw [isAsciiAlphanumeric_toNat] at h
  simp only [UInt8.lt_iff_toNat_lt, UInt8.reduceToNat]
  omega

theorem punctuation_visible : ∀ b ∈ originPunctuation, 32 < b ∧ b < 127 := by
  decide +kernel

theorem piece_visible (piece : Bytes) (h : Piece piece) : ∀ b ∈ piece, 32 < b ∧ b < 127 := by
  cases h with
  | character c hc =>
    intro b hb
    obtain rfl := List.mem_singleton.mp hb
    rcases hc with hc | hc
    · exact alphanumeric_visible b hc
    · exact punctuation_visible b hc
  | escape high low hhigh hlow =>
    simp only [List.forall_mem_cons]
    exact ⟨by decide, hexdigit_visible high hhigh, hexdigit_visible low hlow, by simp⟩

theorem originForm_visible (value : Bytes) (h : OriginForm value) :
    ∀ b ∈ value, 32 < b ∧ b < 127 := by
  obtain ⟨pieces, rfl, hpieces⟩ := h
  intro b hb
  rcases List.mem_cons.mp hb with rfl | hb
  · decide
  · obtain ⟨piece, hm, hb⟩ := List.mem_flatten.mp hb
    exact piece_visible piece (hpieces piece hm) b hb

/-- What a server reads when it is probed at `path`. -/
def probed (path : Bytes) : HttpText.Request where
  method := lit "GET"
  target := path
  version := lit "HTTP/1.1"
  fields := [(lit "Host", lit "127.0.0.1"), (lit "Connection", lit "close")]
  body := []

theorem word_get : HttpText.Word (lit "GET") :=
  ⟨by decide, by decide +kernel⟩

theorem word_version : HttpText.Word (lit "HTTP/1.1") :=
  ⟨by decide, by decide +kernel⟩

theorem probed_plain (path : Bytes) (h : OriginForm path) : (probed path).Plain := by
  have hvisible := originForm_visible path h
  constructor
  · exact word_get
  · constructor
    · obtain ⟨pieces, rfl, -⟩ := h
      exact List.cons_ne_nil _ _
    · intro b hb
      have hb' := (hvisible b hb).1
      simp only [HttpText.blank, decide_eq_false_iff_not, UInt8.not_le]
      exact hb'
  · exact word_version
  · intro field hm
    rcases List.mem_cons.mp hm with rfl | hm
    · exact ⟨by decide, by decide, by decide⟩
    · obtain rfl := List.mem_singleton.mp hm
      exact ⟨by decide, by decide, by decide⟩

theorem probeRequest_write (probe : Probe) :
    probeRequest probe = (probed probe.path).write := by
  have hhead : lit "GET " = lit "GET" ++ [32] := by decide
  have htail : lit " HTTP/1.1\r\nHost: 127.0.0.1\r\nConnection: close\r\n\r\n" =
      [32] ++ (lit "HTTP/1.1" ++ (HttpText.lineEnd ++ ((probed []).fields.flatMap (fun field =>
        HttpText.writeField field ++ HttpText.lineEnd) ++ (HttpText.lineEnd ++ [])))) := by
    decide
  simp only [probeRequest, HttpText.Request.write, HttpText.Request.head, hhead, htail,
    List.append_assoc]
  rfl

/-- The two scanners agree and stay in range, accept the grammar, and leave a request of one
line with two fields. -/
theorem originForm_agrees (value : Bytes) :
    scanHTTPOriginForm value = .ok (validHTTPOriginForm value) ∧
    scanHttpOriginForm value = .ok (validHttpOriginForm value) ∧
    validHTTPOriginForm value = validHttpOriginForm value ∧
    (validHttpOriginForm value = true ↔ OriginForm value) ∧
    (validHttpOriginForm value = true → ∀ probe : Probe, probe.path = value →
      HttpText.readRequest (probeRequest probe) = some (probed value)) := by
  have hsame := validHTTPOriginForm_eq value
  refine ⟨?_, scanHttpOriginForm_eq value, hsame, validHttpOriginForm_iff value, ?_⟩
  · rw [scanHTTPOriginForm_eq, hsame]
  · rintro hvalid probe rfl
    have hplain := probed_plain probe.path ((validHttpOriginForm_iff probe.path).mp hvalid)
    rw [probeRequest_write]
    exact HttpText.readRequest_write _ hplain

def escapedProbe : Probe := ⟨lit "/a%20b?c", 8080, 1000, 100, 100, 1, 1⟩

theorem originForm_agrees_escaped : OriginForm escapedProbe.path ∧
    HttpText.readRequest (probeRequest escapedProbe) = some (probed escapedProbe.path) := by
  have hagrees := originForm_agrees escapedProbe.path
  have hvalid : validHttpOriginForm escapedProbe.path = true := by decide
  exact ⟨hagrees.2.2.2.1.mp hvalid, hagrees.2.2.2.2 hvalid escapedProbe rfl⟩

end Sandcamp.ProbePath
