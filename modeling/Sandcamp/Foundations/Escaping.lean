import Mathlib.Data.List.Basic

/-!
# Escaped delimiters

A text is made of pieces between delimiters, in which an escape protects the next item. A reader
walks the text with one bit of state, whether the last item was an escape in force. `protect`
puts an escape before every special item; whatever the text it is given, what it writes is one
whole piece for every special delimiter, and reads back as that text.
-/

namespace Foundations

variable {α : Type} [DecidableEq α]

/-- Is the item behind `item` protected, where `item` itself is or is not. -/
def escapes (escape : α) (shielded : Bool) (item : α) : Bool := !shielded && item == escape

/-- The state of a reader that has gone through the text. -/
def shieldedAfter (escape : α) (shielded : Bool) (text : List α) : Bool :=
  text.foldl (escapes escape) shielded

/-- The pieces between the unprotected delimiters. -/
def splitUnprotected (escape delimiter : α) : Bool → List α → List (List α)
  | _, [] => [[]]
  | shielded, item :: rest =>
    if shielded = false ∧ item = delimiter then [] :: splitUnprotected escape delimiter false rest
    else (splitUnprotected escape delimiter (escapes escape shielded item) rest).modifyHead
      (item :: ·)

/-- One level of escapes is removed. -/
def unprotect (escape : α) : Bool → List α → List α
  | _, [] => []
  | shielded, item :: rest =>
    if escapes escape shielded item then unprotect escape true rest
    else item :: unprotect escape false rest

/-- An escape before every special item. -/
def protect (escape : α) (special : α → Bool) (text : List α) : List α :=
  text.flatMap fun item => if special item then [escape, item] else [item]

/-! ### Pieces -/

/-- No delimiter in the text is unprotected. -/
def Undivided (escape delimiter : α) : Bool → List α → Prop
  | _, [] => True
  | shielded, item :: rest =>
    ¬(shielded = false ∧ item = delimiter) ∧
      Undivided escape delimiter (escapes escape shielded item) rest

/-- A piece that is not divided and does not protect what comes behind it. -/
structure WholePiece (escape delimiter : α) (piece : List α) : Prop where
  undivided : Undivided escape delimiter false piece
  closed : shieldedAfter escape false piece = false

variable {escape delimiter : α} {special : α → Bool}

theorem undivided_append (shielded : Bool) (first second : List α) :
    Undivided escape delimiter shielded (first ++ second) ↔
      Undivided escape delimiter shielded first ∧
        Undivided escape delimiter (shieldedAfter escape shielded first) second := by
  induction first generalizing shielded with
  | nil => simp [Undivided, shieldedAfter]
  | cons item rest ih => simp [Undivided, shieldedAfter, ih, and_assoc]

theorem shieldedAfter_append (shielded : Bool) (first second : List α) :
    shieldedAfter escape shielded (first ++ second) =
      shieldedAfter escape (shieldedAfter escape shielded first) second :=
  List.foldl_append

theorem whole_append {first second : List α} (h : WholePiece escape delimiter first)
    (h' : WholePiece escape delimiter second) : WholePiece escape delimiter (first ++ second) where
  undivided := by
    rw [undivided_append, h.closed]
    exact ⟨h.undivided, h'.undivided⟩
  closed := by rw [shieldedAfter_append, h.closed, h'.closed]

/-- A text without escapes and delimiters. -/
theorem whole_of_plain (text : List α) (h : ∀ item ∈ text, item ≠ escape ∧ item ≠ delimiter) :
    WholePiece escape delimiter text := by
  induction text with
  | nil => exact ⟨trivial, rfl⟩
  | cons item rest ih =>
    obtain ⟨hne, hother⟩ := h item (by simp)
    have hitem : WholePiece escape delimiter [item] :=
      ⟨by simp [Undivided, hother], by simp [shieldedAfter, escapes, hne]⟩
    exact whole_append hitem (ih fun i hi => h i (by simp [hi]))

/-- The text in front of the first unprotected delimiter becomes part of the first piece. -/
theorem splitUnprotected_append (shielded : Bool) (piece rest : List α)
    (h : Undivided escape delimiter shielded piece) :
    splitUnprotected escape delimiter shielded (piece ++ rest) =
      (splitUnprotected escape delimiter (shieldedAfter escape shielded piece) rest).modifyHead
        (piece ++ ·) := by
  induction piece generalizing shielded with
  | nil =>
    have hid : (fun text : List α => [] ++ text) = id := rfl
    rw [hid, List.modifyHead_id, id]
    rfl
  | cons item text ih =>
    obtain ⟨hfree, htext⟩ := h
    rw [List.cons_append, splitUnprotected, if_neg hfree, ih _ htext, List.modifyHead_modifyHead]
    rfl

theorem splitUnprotected_cons {piece : List α} (rest : List α) (h : WholePiece escape delimiter piece) :
    splitUnprotected escape delimiter false (piece ++ delimiter :: rest) =
      piece :: splitUnprotected escape delimiter false rest := by
  rw [splitUnprotected_append false piece _ h.undivided, h.closed]
  simp [splitUnprotected]

theorem splitUnprotected_whole {piece : List α} (h : WholePiece escape delimiter piece) :
    splitUnprotected escape delimiter false piece = [piece] := by
  have hsplit := splitUnprotected_append false piece [] h.undivided
  rw [List.append_nil, h.closed] at hsplit
  simpa [splitUnprotected] using hsplit

/-! ### What `protect` writes -/

omit [DecidableEq α] in
theorem protect_cons (item : α) (rest : List α) :
    protect escape special (item :: rest) =
      (if special item then [escape, item] else [item]) ++ protect escape special rest :=
  List.flatMap_cons

/-- A special delimiter, behind its escape or as it is, divides no piece. -/
theorem whole_item (hescape : special escape = true) (hdelimiter : special delimiter = true)
    (hne : escape ≠ delimiter) (item : α) :
    WholePiece escape delimiter (if special item then [escape, item] else [item]) := by
  by_cases hitem : special item = true
  · rw [if_pos hitem]
    constructor
    · simp [Undivided, escapes, hne]
    · simp [shieldedAfter, escapes]
  · rw [if_neg hitem]
    refine whole_of_plain [item] fun i hi => ?_
    rw [List.mem_singleton.mp hi]
    constructor
    · rintro rfl
      exact hitem hescape
    · rintro rfl
      exact hitem hdelimiter

theorem whole_protect (hescape : special escape = true) (hdelimiter : special delimiter = true)
    (hne : escape ≠ delimiter) (text : List α) :
    WholePiece escape delimiter (protect escape special text) := by
  induction text with
  | nil => exact ⟨trivial, rfl⟩
  | cons item rest ih =>
    rw [protect_cons]
    exact whole_append (whole_item hescape hdelimiter hne item) ih

/-- Escapes are removed again, whatever the text holds. -/
theorem unprotect_protect (hescape : special escape = true) (text : List α) :
    unprotect escape false (protect escape special text) = text := by
  induction text with
  | nil => rfl
  | cons item rest ih =>
    rw [protect_cons]
    by_cases hitem : special item = true
    · simp [hitem, unprotect, escapes, ih]
    · have hne : item ≠ escape := by
        rintro rfl
        exact hitem hescape
      simp [hitem, unprotect, escapes, hne, ih]

end Foundations
