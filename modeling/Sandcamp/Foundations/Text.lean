import Sandcamp.Foundations.Utf8
import Mathlib.Data.List.DropRight

/-!
# Text made of arbitrary bytes

`fromUtf8Lossy` reads bytes as a list of characters, each the bytes of its encoding; a
longest beginning of a well-formed sequence that is not continued becomes one U+FFFD.
Text is cut into words at the characters of the Unicode property `White_Space`. Both
operations look at the front only, so bytes behind an ASCII character, or behind a word
and its blank, change nothing before them.
-/

namespace Foundations.Text
open Foundations Foundations.Utf8

/-! ### Characters -/

/-- U+FFFD. -/
def replacement : Bytes := [0xEF, 0xBF, 0xBD]

/-- How many bytes one replacement stands for, where no sequence begins. -/
def strayLength : Bytes → ℕ
  | lead :: b :: c :: _ =>
    if announced lead = 4 ∧ second lead b = true ∧ continuation c = true then 3
    else if 3 ≤ announced lead ∧ second lead b = true then 2
    else 1
  | [lead, b] => if 3 ≤ announced lead ∧ second lead b = true then 2 else 1
  | _ => 1

def firstChar (bs : Bytes) : Bytes :=
  if scalarLength bs = 0 then replacement else bs.take (scalarLength bs)

/-- The bytes the first character is read from. -/
def charLength (bs : Bytes) : ℕ :=
  if scalarLength bs = 0 then strayLength bs else scalarLength bs

/-- `fuel` bounds the number of characters. -/
def charsWithin : ℕ → Bytes → List Bytes
  | _, [] => []
  | 0, _ => []
  | fuel + 1, b :: bs =>
    firstChar (b :: bs) :: charsWithin fuel (bs.drop (charLength (b :: bs) - 1))

/-- `String::from_utf8_lossy`. -/
def fromUtf8Lossy (bs : Bytes) : List Bytes := charsWithin bs.length bs

theorem charsLeft_length (b : UInt8) (bs : Bytes) :
    (bs.drop (charLength (b :: bs) - 1)).length ≤ bs.length := by
  rw [List.length_drop]
  omega

theorem charsWithin_enough (fuel : ℕ) (bs : Bytes) (h : bs.length ≤ fuel) :
    charsWithin fuel bs = fromUtf8Lossy bs :=
  fuel_enough (fun fuel => by cases fuel <;> rfl) (fun _ _ _ => rfl) charsLeft_length fuel bs.length
    bs h (Nat.le_refl _)

theorem fromUtf8Lossy_cons (b : UInt8) (bs : Bytes) :
    fromUtf8Lossy (b :: bs) =
      firstChar (b :: bs) :: fromUtf8Lossy (bs.drop (charLength (b :: bs) - 1)) := by
  rw [fromUtf8Lossy, List.length_cons, charsWithin,
    charsWithin_enough bs.length _ (charsLeft_length b bs)]

theorem fromUtf8Lossy_eq_nil (bs : Bytes) : fromUtf8Lossy bs = [] ↔ bs = [] := by
  cases bs with
  | nil => exact iff_of_true rfl rfl
  | cons b bs => simp [fromUtf8Lossy_cons]

/-- A well-formed sequence at the front is the first character. -/
theorem fromUtf8Lossy_scalar (char rest : Bytes) (h : Scalar char) :
    fromUtf8Lossy (char ++ rest) = char :: fromUtf8Lossy rest := by
  cases char with
  | nil => exact absurd rfl h.1
  | cons b tail =>
    have hall := scalarLength_of_scalar rest h
    have hfirst : firstChar (b :: (tail ++ rest)) = b :: tail := by
      rw [firstChar, hall, if_neg (by simp), ← List.cons_append, ← List.length_cons, List.take_left]
    have hused : charLength (b :: (tail ++ rest)) - 1 = tail.length := by
      rw [charLength, hall, if_neg (by simp), Nat.add_sub_cancel]
    rw [List.cons_append, fromUtf8Lossy_cons, hfirst, hused, List.drop_left]

theorem fromUtf8Lossy_scalars (front : List Bytes) (rest : Bytes) (h : ∀ c ∈ front, Scalar c) :
    fromUtf8Lossy (front.flatten ++ rest) = front ++ fromUtf8Lossy rest := by
  induction front with
  | nil => rfl
  | cons char front ih =>
    rw [List.flatten_cons, List.append_assoc,
      fromUtf8Lossy_scalar _ _ (h char List.mem_cons_self),
      ih fun c hm => h c (List.mem_cons_of_mem _ hm)]
    rfl

/-- A first character other than U+FFFD stands in the bytes. -/
theorem scalar_of_fromUtf8Lossy {bs char : Bytes} {rest : List Bytes}
    (h : fromUtf8Lossy bs = char :: rest) (hne : char ≠ replacement) :
    ∃ bs', bs = char ++ bs' ∧ Scalar char ∧ fromUtf8Lossy bs' = rest := by
  cases bs with
  | nil => cases h
  | cons b bs =>
    rw [fromUtf8Lossy_cons] at h
    obtain ⟨hfirst, hrest⟩ := List.cons.inj h
    unfold firstChar at hfirst
    by_cases hzero : scalarLength (b :: bs) = 0
    · rw [if_pos hzero] at hfirst
      exact absurd hfirst.symm hne
    · rw [if_neg hzero] at hfirst
      obtain ⟨htake, hle⟩ := scalarLength_take (b :: bs) hzero
      obtain ⟨n, hn⟩ := Nat.exists_eq_succ_of_ne_zero hzero
      refine ⟨bs.drop (scalarLength (b :: bs) - 1), ?_, ?_, ?_⟩
      · have hsplit := List.take_append_drop (scalarLength (b :: bs)) (b :: bs)
        have hdrop : (b :: bs).drop (scalarLength (b :: bs)) =
            bs.drop (scalarLength (b :: bs) - 1) := by
          rw [hn]
          rfl
        rw [hfirst, hdrop] at hsplit
        exact hsplit.symm
      · rw [← hfirst]
        refine ⟨?_, by rw [htake, List.length_take_of_le hle]⟩
        intro hnil
        have hlength := congrArg List.length hnil
        rw [List.length_take_of_le hle] at hlength
        exact hzero hlength
      · rw [charLength, if_neg hzero] at hrest
        exact hrest

theorem scalars_of_fromUtf8Lossy (front : List Bytes) {bs : Bytes} {rest : List Bytes}
    (h : fromUtf8Lossy bs = front ++ rest) (hne : replacement ∉ front) :
    ∃ bs', bs = front.flatten ++ bs' ∧ (∀ c ∈ front, Scalar c) ∧ fromUtf8Lossy bs' = rest := by
  induction front generalizing bs with
  | nil => exact ⟨bs, rfl, fun _ hm => absurd hm List.not_mem_nil, h⟩
  | cons char front ih =>
    rw [List.mem_cons, not_or] at hne
    obtain ⟨middle, rfl, hchar, hmiddle⟩ := scalar_of_fromUtf8Lossy h (fun heq => hne.1 heq.symm)
    obtain ⟨bs', rfl, hfront, hbs'⟩ := ih hmiddle hne.2
    refine ⟨bs', ?_, ?_, hbs'⟩
    · rw [List.flatten_cons, List.append_assoc]
    · rw [List.forall_mem_cons]
      exact ⟨hchar, hfront⟩

/-! ### An ASCII character ends every sequence -/

theorem continuation_ascii (b : UInt8) (h : b < 0x80) : continuation b = false := by
  have hlow : ¬(0x80 : UInt8) ≤ b := UInt8.not_le.mpr h
  simp [continuation, hlow]

theorem second_ascii (lead b : UInt8) (h : b < 0x80) : second lead b = false := by
  have h80 : ¬(0x80 : UInt8) ≤ b := UInt8.not_le.mpr h
  have h90 : ¬(0x90 : UInt8) ≤ b := fun hle => h80 (UInt8.le_trans (by decide) hle)
  have hA0 : ¬(0xA0 : UInt8) ≤ b := fun hle => h80 (UInt8.le_trans (by decide) hle)
  simp [second, continuation, h80, h90, hA0]

theorem lengths_append_ascii (lead : UInt8) (tail : Bytes) (b : UInt8) (rest : Bytes)
    (h : b < 0x80) :
    scalarLength (lead :: (tail ++ b :: rest)) = scalarLength (lead :: tail) ∧
      strayLength (lead :: (tail ++ b :: rest)) = strayLength (lead :: tail) := by
  have hsecond := second_ascii lead b h
  have hcontinuation := continuation_ascii b h
  constructor
  · simp only [scalarLength]
    generalize announced lead = n
    rcases n with _ | _ | _ | _ | _ | n <;> rcases tail with _ | ⟨x, _ | ⟨y, _ | ⟨z, tail⟩⟩⟩ <;>
      rcases rest with _ | ⟨u, _ | ⟨v, rest⟩⟩ <;> simp [hsecond, hcontinuation]
  · rcases tail with _ | ⟨x, _ | ⟨y, tail⟩⟩
    · cases rest <;> simp [strayLength, hsecond]
    · simp [strayLength, hcontinuation]
    · simp [strayLength]

theorem strayLength_bounds (lead : UInt8) (tail : Bytes) :
    0 < strayLength (lead :: tail) ∧ strayLength (lead :: tail) ≤ (lead :: tail).length := by
  rcases tail with _ | ⟨x, _ | ⟨y, tail⟩⟩
  · exact ⟨Nat.zero_lt_one, Nat.le_refl 1⟩
  · simp only [strayLength]
    split_ifs <;> simp
  · simp only [strayLength]
    split_ifs <;> simp

theorem charLength_bounds (lead : UInt8) (tail : Bytes) :
    0 < charLength (lead :: tail) ∧ charLength (lead :: tail) ≤ (lead :: tail).length := by
  unfold charLength
  by_cases hzero : scalarLength (lead :: tail) = 0
  · rw [if_pos hzero]
    exact strayLength_bounds lead tail
  · rw [if_neg hzero]
    exact ⟨Nat.pos_of_ne_zero hzero, (scalarLength_take _ hzero).2⟩

theorem fromUtf8Lossy_append_ascii (bs : Bytes) (b : UInt8) (rest : Bytes) (h : b < 0x80) :
    fromUtf8Lossy (bs ++ b :: rest) = fromUtf8Lossy bs ++ [b] :: fromUtf8Lossy rest := by
  induction hlength : bs.length using Nat.strong_induction_on generalizing bs with
  | _ n ih =>
    cases bs with
    | nil =>
      have hscalar : Scalar [b] := ⟨by simp, scalarLength_ascii b [] h⟩
      exact fromUtf8Lossy_scalar [b] rest hscalar
    | cons lead tail =>
      obtain ⟨hscalar, hstray⟩ := lengths_append_ascii lead tail b rest h
      obtain ⟨hpos, hle⟩ := charLength_bounds lead tail
      have hused : charLength (lead :: (tail ++ b :: rest)) = charLength (lead :: tail) := by
        unfold charLength
        rw [hscalar, hstray]
      have hfirst : firstChar (lead :: (tail ++ b :: rest)) = firstChar (lead :: tail) := by
        unfold firstChar
        rw [hscalar]
        by_cases hzero : scalarLength (lead :: tail) = 0
        · rw [if_pos hzero, if_pos hzero]
        · rw [if_neg hzero, if_neg hzero, ← List.cons_append,
            List.take_append_of_le_length (scalarLength_take _ hzero).2]
      rw [List.length_cons] at hlength hle
      have hrest := ih (tail.drop (charLength (lead :: tail) - 1)).length
        (by rw [List.length_drop]; omega) _ rfl
      rw [List.cons_append, fromUtf8Lossy_cons, fromUtf8Lossy_cons lead tail, hfirst, hused,
        List.drop_append_of_le_length (by omega), hrest]
      rfl

theorem mem_fromUtf8Lossy (bs char : Bytes) (h : char ∈ fromUtf8Lossy bs) :
    ∃ lead tail, char = firstChar (lead :: tail) ∧ ∀ b ∈ lead :: tail, b ∈ bs := by
  induction hlength : bs.length using Nat.strong_induction_on generalizing bs with
  | _ n ih =>
    cases bs with
    | nil => cases h
    | cons lead tail =>
      rw [fromUtf8Lossy_cons] at h
      rw [List.length_cons] at hlength
      rcases List.mem_cons.mp h with rfl | h
      · exact ⟨lead, tail, rfl, fun b hb => hb⟩
      · obtain ⟨lead', tail', hchar, hbytes⟩ :=
          ih (tail.drop (charLength (lead :: tail) - 1)).length
            (by rw [List.length_drop]; omega) _ h rfl
        refine ⟨lead', tail', hchar, fun b hb => ?_⟩
        exact List.mem_cons_of_mem _ (List.mem_of_mem_drop (hbytes b hb))

theorem scalar_of_mem (bs char : Bytes) (h : char ∈ fromUtf8Lossy bs) : Scalar char := by
  obtain ⟨lead, tail, rfl, -⟩ := mem_fromUtf8Lossy bs char h
  unfold firstChar
  by_cases hzero : scalarLength (lead :: tail) = 0
  · rw [if_pos hzero]
    exact ⟨by decide, by decide⟩
  · rw [if_neg hzero]
    obtain ⟨htake, hle⟩ := scalarLength_take (lead :: tail) hzero
    have hlength := List.length_take_of_le hle
    refine ⟨?_, by rw [htake, hlength]⟩
    intro hnil
    rw [hnil] at hlength
    exact hzero hlength.symm

theorem bytes_of_mem (bs char : Bytes) (h : char ∈ fromUtf8Lossy bs) :
    char = replacement ∨ ∀ b ∈ char, b ∈ bs := by
  obtain ⟨lead, tail, rfl, hbytes⟩ := mem_fromUtf8Lossy bs char h
  unfold firstChar
  by_cases hzero : scalarLength (lead :: tail) = 0
  · exact Or.inl (if_pos hzero)
  · rw [if_neg hzero]
    exact Or.inr fun b hb => hbytes b (List.mem_of_mem_take hb)

/-! ### Words -/

/-- `char::is_whitespace`. -/
def whitespace : List Bytes :=
  [[0x09], [0x0A], [0x0B], [0x0C], [0x0D], [0x20], [0xC2, 0x85], [0xC2, 0xA0],
    [0xE1, 0x9A, 0x80], [0xE2, 0x80, 0x80], [0xE2, 0x80, 0x81], [0xE2, 0x80, 0x82],
    [0xE2, 0x80, 0x83], [0xE2, 0x80, 0x84], [0xE2, 0x80, 0x85], [0xE2, 0x80, 0x86],
    [0xE2, 0x80, 0x87], [0xE2, 0x80, 0x88], [0xE2, 0x80, 0x89], [0xE2, 0x80, 0x8A],
    [0xE2, 0x80, 0xA8], [0xE2, 0x80, 0xA9], [0xE2, 0x80, 0xAF], [0xE2, 0x81, 0x9F],
    [0xE3, 0x80, 0x80]]

def isWhitespace (char : Bytes) : Bool := whitespace.contains char

/-- `str::split_whitespace`. -/
def splitWhitespace (text : List Bytes) : List Bytes :=
  ((text.splitOnP isWhitespace).filter (· ≠ [])).map List.flatten

/-- `text.trim_end_matches('\r')`. -/
def trimReturns (text : List Bytes) : List Bytes := text.rdropWhile (· = [0x0D])

/-- The first item of `str::lines`, the empty string where there is none. -/
def firstLine (text : List Bytes) : List Bytes :=
  let line := text.takeWhile (· ≠ [newline])
  if line.length < text.length ∧ line.getLast? = some [0x0D] then line.dropLast else line

theorem isWhitespace_iff (char : Bytes) : isWhitespace char = true ↔ char ∈ whitespace := by
  rw [isWhitespace, List.contains_iff_mem]

theorem scalar_of_whitespace : ∀ char ∈ whitespace, Scalar char := by
  unfold Scalar
  decide

theorem replacement_not_whitespace : replacement ∉ whitespace := by decide

/-- Nothing follows, or a blank does. -/
def Ends (rest : List Bytes) : Prop := ∀ c ∈ rest.head?, isWhitespace c = true

theorem splitWhitespace_blank (c : Bytes) (text : List Bytes) (h : isWhitespace c = true) :
    splitWhitespace (c :: text) = splitWhitespace text := by
  unfold splitWhitespace
  rw [List.splitOnP_cons_eq_if_modifyHead, if_pos h, List.filter_cons_of_neg (by simp)]

theorem splitWhitespace_blanks (blanks text : List Bytes)
    (h : ∀ c ∈ blanks, isWhitespace c = true) :
    splitWhitespace (blanks ++ text) = splitWhitespace text := by
  induction blanks with
  | nil => rfl
  | cons c blanks ih =>
    rw [List.cons_append, splitWhitespace_blank _ _ (h c List.mem_cons_self)]
    exact ih fun d hm => h d (List.mem_cons_of_mem _ hm)

theorem splitWhitespace_append_blank (text : List Bytes) (c : Bytes)
    (h : isWhitespace c = true) : splitWhitespace (text ++ [c]) = splitWhitespace text := by
  unfold splitWhitespace
  rw [List.splitOnP_append_cons text [] h, List.filter_append]
  simp

theorem splitWhitespace_word (word rest : List Bytes) (hne : word ≠ [])
    (h : ∀ c ∈ word, isWhitespace c = false) (hends : Ends rest) :
    splitWhitespace (word ++ rest) = word.flatten :: splitWhitespace rest := by
  cases rest with
  | nil =>
    unfold splitWhitespace
    rw [List.append_nil, List.splitOnP_eq_singleton h, List.filter_cons_of_pos (by simp [hne])]
    rfl
  | cons c rest =>
    have hc : isWhitespace c = true := hends c rfl
    rw [splitWhitespace_blank c rest hc]
    unfold splitWhitespace
    rw [List.splitOnP_append_cons_of_forall_mem h c hc, List.filter_cons_of_pos (by simp [hne]),
      List.map_cons]

/-- The first word of a text, with the blanks before it and what follows it. -/
theorem splitWhitespace_eq_cons (text : List Bytes) (w : Bytes) (more : List Bytes)
    (h : splitWhitespace text = w :: more) :
    ∃ blanks word rest, text = blanks ++ (word ++ rest) ∧ (∀ c ∈ blanks, isWhitespace c = true) ∧
      (∀ c ∈ word, isWhitespace c = false) ∧ Ends rest ∧ word.flatten = w ∧
      splitWhitespace rest = more := by
  have hblanks : ∀ c ∈ text.takeWhile isWhitespace, isWhitespace c = true := fun c hc =>
    List.mem_takeWhile_imp hc
  have htext := List.takeWhile_append_dropWhile (p := isWhitespace) (l := text)
  generalize text.takeWhile isWhitespace = blanks at hblanks htext
  have hstart := List.head?_dropWhile_not isWhitespace text
  generalize text.dropWhile isWhitespace = front at hstart htext
  have hword : ∀ c ∈ front.takeWhile (fun c => !isWhitespace c), isWhitespace c = false := by
    intro c hc
    simpa using List.mem_takeWhile_imp hc
  have hfront := List.takeWhile_append_dropWhile (p := fun c => !isWhitespace c) (l := front)
  have hends : Ends (front.dropWhile (fun c => !isWhitespace c)) := by
    intro c hc
    have hnot := List.head?_dropWhile_not (fun c => !isWhitespace c) front
    rw [Option.mem_def] at hc
    rw [hc] at hnot
    simpa using hnot
  generalize front.takeWhile (fun c => !isWhitespace c) = word at hword hfront
  generalize front.dropWhile (fun c => !isWhitespace c) = rest at hends hfront
  subst hfront
  rw [← htext, splitWhitespace_blanks blanks _ hblanks] at h
  by_cases hne : word = []
  · subst hne
    cases rest with
    | nil => cases h
    | cons c rest =>
      have hc : isWhitespace c = true := hends c rfl
      rw [List.nil_append, List.head?_cons] at hstart
      simp [hc] at hstart
  · rw [splitWhitespace_word word rest hne hword hends] at h
    obtain ⟨hw, hmore⟩ := List.cons.inj h
    exact ⟨blanks, word, rest, htext.symm, hblanks, hword, hends, hw, hmore⟩

/-! ### Two words at the front of some bytes -/

/-- A word of ASCII characters. -/
def PlainWord (w : Bytes) : Prop := w ≠ [] ∧ ∀ b ∈ w, b < 0x80 ∧ [b] ∉ whitespace

/-- The bytes up to the end of a second word. -/
def TwoWords (v w head : Bytes) : Prop :=
  ∃ before between : List Bytes, (∀ c ∈ before, c ∈ whitespace) ∧
    (∀ c ∈ between, c ∈ whitespace) ∧ between ≠ [] ∧
    head = before.flatten ++ (v ++ (between.flatten ++ w))

/-- Nothing follows, or the bytes of a blank do. -/
def Separated (tail : Bytes) : Prop := tail = [] ∨ ∃ c ∈ whitespace, c <+: tail

def chars (w : Bytes) : List Bytes := w.map fun b => [b]

theorem chars_flatten (w : Bytes) : (chars w).flatten = w := by
  induction w with
  | nil => rfl
  | cons b w ih =>
    rw [chars, List.map_cons, List.flatten_cons]
    rw [chars] at ih
    rw [ih]
    rfl

theorem chars_scalar (w : Bytes) (h : PlainWord w) : ∀ c ∈ chars w, Scalar c := by
  intro c hc
  obtain ⟨b, hb, rfl⟩ := List.mem_map.mp hc
  exact ⟨by simp, scalarLength_ascii b [] (h.2 b hb).1⟩

theorem chars_not_blank (w : Bytes) (h : PlainWord w) :
    ∀ c ∈ chars w, isWhitespace c = false := by
  intro c hc
  obtain ⟨b, hb, rfl⟩ := List.mem_map.mp hc
  rw [Bool.eq_false_iff, Ne, isWhitespace_iff]
  exact (h.2 b hb).2

theorem chars_ne_nil (w : Bytes) (h : PlainWord w) : chars w ≠ [] := by
  intro hnil
  exact h.1 (List.map_eq_nil_iff.mp hnil)

/-- Characters that spell an ASCII word are its bytes. -/
theorem eq_chars_of_flatten (word : List Bytes) (w : Bytes) (hascii : ∀ b ∈ w, b < 0x80)
    (hword : ∀ c ∈ word, Scalar c) (h : word.flatten = w) : word = chars w := by
  induction word generalizing w with
  | nil =>
    rw [← h]
    rfl
  | cons c word ih =>
    rw [List.flatten_cons] at h
    have hc := hword c List.mem_cons_self
    cases c with
    | nil => exact absurd rfl hc.1
    | cons b tail =>
      have hb : b < 0x80 := hascii b (by rw [← h]; simp)
      have htail : tail = [] := by
        have hone := hc.2
        rw [scalarLength_ascii b tail hb, List.length_cons] at hone
        exact List.length_eq_zero_iff.mp (by omega)
      rw [htail, List.cons_append, List.nil_append] at h
      have hrest := ih word.flatten
        (fun x hx => hascii x (by rw [← h]; exact List.mem_cons_of_mem _ hx))
        (fun d hd => hword d (List.mem_cons_of_mem _ hd)) rfl
      have hchars : chars w = [b] :: chars word.flatten := by
        rw [← h]
        rfl
      rw [hchars, ← hrest, htail]

theorem separated_iff (tail : Bytes) : Ends (fromUtf8Lossy tail) ↔ Separated tail := by
  constructor
  · intro h
    cases hchars : fromUtf8Lossy tail with
    | nil => exact Or.inl ((fromUtf8Lossy_eq_nil tail).mp hchars)
    | cons c rest =>
      rw [hchars] at h
      have hc : c ∈ whitespace := (isWhitespace_iff c).mp (h c rfl)
      have hne : c ≠ replacement := fun heq => replacement_not_whitespace (heq ▸ hc)
      obtain ⟨tail', rfl, -, -⟩ := scalar_of_fromUtf8Lossy hchars hne
      exact Or.inr ⟨c, hc, List.prefix_append _ _⟩
  · rintro (rfl | ⟨c, hc, tail', rfl⟩)
    · intro c hc
      cases hc
    · intro d hd
      rw [fromUtf8Lossy_scalar c tail' (scalar_of_whitespace c hc)] at hd
      obtain rfl := Option.some.inj hd
      exact (isWhitespace_iff c).mpr hc

/-- The text of `head ++ tail`, blank by blank and letter by letter. -/
theorem fromUtf8Lossy_twoWords (v w tail : Bytes) (before between : List Bytes)
    (hv : PlainWord v) (hw : PlainWord w) (hbefore : ∀ c ∈ before, c ∈ whitespace)
    (hbetween : ∀ c ∈ between, c ∈ whitespace) :
    fromUtf8Lossy (before.flatten ++ (v ++ (between.flatten ++ w)) ++ tail) =
      before ++ (chars v ++ (between ++ (chars w ++ fromUtf8Lossy tail))) := by
  have hscalars : ∀ front : List Bytes, (∀ c ∈ front, c ∈ whitespace) → ∀ c ∈ front, Scalar c :=
    fun front h c hc => scalar_of_whitespace c (h c hc)
  have hassoc : before.flatten ++ (v ++ (between.flatten ++ w)) ++ tail =
      before.flatten ++ ((chars v).flatten ++ (between.flatten ++ ((chars w).flatten ++ tail))) := by
    simp only [chars_flatten, List.append_assoc]
  rw [hassoc, fromUtf8Lossy_scalars _ _ (hscalars before hbefore),
    fromUtf8Lossy_scalars _ _ (chars_scalar v hv),
    fromUtf8Lossy_scalars _ _ (hscalars between hbetween),
    fromUtf8Lossy_scalars _ _ (chars_scalar w hw)]

/-- The words of some bytes begin with `v` and `w` exactly when the bytes do. -/
theorem splitWhitespace_twoWords (v w bs : Bytes) (hv : PlainWord v) (hw : PlainWord w) :
    (∃ more, splitWhitespace (fromUtf8Lossy bs) = v :: w :: more) ↔
      ∃ head tail, TwoWords v w head ∧ Separated tail ∧ bs = head ++ tail := by
  have hblank : ∀ front : List Bytes, (∀ c ∈ front, isWhitespace c = true) ↔
      ∀ c ∈ front, c ∈ whitespace :=
    fun front => forall₂_congr fun c _ => isWhitespace_iff c
  have hfree : ∀ front : List Bytes, (∀ c ∈ front, c ∈ whitespace) → replacement ∉ front :=
    fun front h hm => replacement_not_whitespace (h _ hm)
  have hletters : ∀ x : Bytes, PlainWord x → replacement ∉ chars x := by
    intro x hx hm
    obtain ⟨b, -, hb⟩ := List.mem_map.mp hm
    cases hb
  constructor
  · rintro ⟨more, h⟩
    obtain ⟨before, first, rest, htext, hbefore, -, hrest, hfirst, hmore⟩ :=
      splitWhitespace_eq_cons _ _ _ h
    obtain ⟨between, last, rest', rfl, hbetween, -, hends, hlast, -⟩ :=
      splitWhitespace_eq_cons _ _ _ hmore
    have hmem : ∀ c ∈ first ++ last, Scalar c := by
      intro c hc
      apply scalar_of_mem bs c
      rw [htext]
      simp only [List.mem_append] at hc ⊢
      rcases hc with hc | hc
      · exact Or.inr (Or.inl hc)
      · exact Or.inr (Or.inr (Or.inr (Or.inl hc)))
    obtain rfl := eq_chars_of_flatten first v (fun b hb => (hv.2 b hb).1)
      (fun c hc => hmem c (List.mem_append_left _ hc)) hfirst
    obtain rfl := eq_chars_of_flatten last w (fun b hb => (hw.2 b hb).1)
      (fun c hc => hmem c (List.mem_append_right _ hc)) hlast
    rw [hblank] at hbefore hbetween
    obtain ⟨bs₁, rfl, -, h₁⟩ := scalars_of_fromUtf8Lossy before htext (hfree _ hbefore)
    obtain ⟨bs₂, rfl, -, h₂⟩ := scalars_of_fromUtf8Lossy _ h₁ (hletters v hv)
    obtain ⟨bs₃, rfl, -, h₃⟩ := scalars_of_fromUtf8Lossy between h₂ (hfree _ hbetween)
    obtain ⟨tail, rfl, -, h₄⟩ := scalars_of_fromUtf8Lossy _ h₃ (hletters w hw)
    refine ⟨before.flatten ++ (v ++ (between.flatten ++ w)), tail,
      ⟨before, between, hbefore, hbetween, ?_, rfl⟩, ?_, ?_⟩
    · rintro rfl
      obtain ⟨b, w', rfl⟩ := List.exists_cons_of_ne_nil hw.1
      have hb := hrest [b] rfl
      rw [isWhitespace_iff] at hb
      exact (hw.2 b List.mem_cons_self).2 hb
    · rw [← separated_iff, h₄]
      exact hends
    · simp only [chars_flatten, List.append_assoc]
  · rintro ⟨head, tail, ⟨before, between, hbefore, hbetween, hne, rfl⟩, htail, rfl⟩
    have hends := (separated_iff tail).mpr htail
    refine ⟨splitWhitespace (fromUtf8Lossy tail), ?_⟩
    have hgap : Ends (between ++ (chars w ++ fromUtf8Lossy tail)) := by
      obtain ⟨c, between', rfl⟩ := List.exists_cons_of_ne_nil hne
      intro d hd
      obtain rfl := Option.some.inj hd
      exact (isWhitespace_iff c).mpr (hbetween c List.mem_cons_self)
    rw [fromUtf8Lossy_twoWords v w tail before between hv hw hbefore hbetween,
      splitWhitespace_blanks _ _ ((hblank before).mpr hbefore),
      splitWhitespace_word _ _ (chars_ne_nil v hv) (chars_not_blank v hv) hgap,
      splitWhitespace_blanks _ _ ((hblank between).mpr hbetween),
      splitWhitespace_word _ _ (chars_ne_nil w hw) (chars_not_blank w hw) hends, chars_flatten,
      chars_flatten]

theorem takeWhile_blanks (blanks rest : List Bytes) (w : Bytes) (hw : PlainWord w)
    (h : ∀ c ∈ blanks, c ∈ whitespace) :
    (blanks ++ (chars w ++ rest)).takeWhile isWhitespace = blanks := by
  have hblanks : ∀ c ∈ blanks, isWhitespace c = true := fun c hc =>
    (isWhitespace_iff c).mpr (h c hc)
  obtain ⟨c, cs, hcs⟩ := List.exists_cons_of_ne_nil (chars_ne_nil w hw)
  have hc : isWhitespace c = false := chars_not_blank w hw c (by rw [hcs]; exact List.mem_cons_self)
  rw [List.takeWhile_append_of_pos hblanks, hcs, List.cons_append, List.takeWhile_cons_of_neg
    (by rw [hc]; exact Bool.false_ne_true), List.append_nil]

/-- Where the second word ends is decided by the bytes up to there. -/
theorem twoWords_unique (v w head head' tail tail' : Bytes) (hv : PlainWord v) (hw : PlainWord w)
    (h : TwoWords v w head) (h' : TwoWords v w head') (heq : head ++ tail = head' ++ tail') :
    head = head' := by
  obtain ⟨before, between, hbefore, hbetween, -, rfl⟩ := h
  obtain ⟨before', between', hbefore', hbetween', -, rfl⟩ := h'
  have htext := congrArg fromUtf8Lossy heq
  rw [fromUtf8Lossy_twoWords v w tail before between hv hw hbefore hbetween,
    fromUtf8Lossy_twoWords v w tail' before' between' hv hw hbefore' hbetween'] at htext
  have hfirst := congrArg (List.takeWhile isWhitespace) htext
  rw [takeWhile_blanks before _ v hv hbefore, takeWhile_blanks before' _ v hv hbefore'] at hfirst
  subst hfirst
  have hrest := List.append_cancel_left (List.append_cancel_left htext)
  have hsecond := congrArg (List.takeWhile isWhitespace) hrest
  rw [takeWhile_blanks between _ w hw hbetween, takeWhile_blanks between' _ w hw hbetween']
    at hsecond
  rw [hsecond]

end Foundations.Text
