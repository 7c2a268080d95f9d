import Mathlib.Data.Set.Function

/-!
# Length-prefixed parts

Parts are written one after the other, each behind a header that tells its length. Where all
headers have one width and tell the lengths in use apart, the parts can be read off the text,
whatever they contain: a part may look like a header or like the parts behind it.
-/

namespace Foundations

variable {α : Type}

/-- A part behind its header. -/
def frame (header : ℕ → List α) (part : List α) : List α := header part.length ++ part

/-- The parts one after the other. -/
def frames (header : ℕ → List α) (parts : List (List α)) : List α := parts.flatMap (frame header)

/-- The headers have one width, and tell the lengths below the bound apart. -/
structure Heads (header : ℕ → List α) (width bound : ℕ) : Prop where
  length : ∀ n, (header n).length = width
  positive : 0 < width
  injective : Set.InjOn header {n | n < bound}

variable {header : ℕ → List α} {width bound : ℕ} {part part' : List α}

theorem frames_cons (header : ℕ → List α) (part : List α) (parts : List (List α)) :
    frames header (part :: parts) = frame header part ++ frames header parts :=
  List.flatMap_cons

/-- A part can be taken off the rest. -/
theorem frame_injective (hheads : Heads header width bound) (rest rest' : List α)
    (hpart : part.length < bound) (hpart' : part'.length < bound)
    (h : frame header part ++ rest = frame header part' ++ rest') :
    part = part' ∧ rest = rest' := by
  simp only [frame, List.append_assoc] at h
  have hwidth : (header part.length).length = (header part'.length).length := by
    simp [hheads.length]
  obtain ⟨hhead, htail⟩ := List.append_inj h hwidth
  have hlength : part.length = part'.length := hheads.injective hpart hpart' hhead
  exact List.append_inj htail hlength

theorem frame_ne_nil (hheads : Heads header width bound) (part rest : List α) :
    frame header part ++ rest ≠ [] := by
  intro h
  have hlength : (frame header part ++ rest).length = 0 := by rw [h]; rfl
  rw [frame, List.length_append, List.length_append, hheads.length] at hlength
  have hpositive := hheads.positive
  omega

/-- The text of a list of parts determines the list. -/
theorem frames_injective (hheads : Heads header width bound) (parts parts' : List (List α))
    (hfit : ∀ part ∈ parts, part.length < bound) (hfit' : ∀ part ∈ parts', part.length < bound)
    (h : frames header parts = frames header parts') : parts = parts' := by
  induction parts generalizing parts' with
  | nil =>
    cases parts' with
    | nil => rfl
    | cons part' rest' =>
      rw [frames_cons] at h
      exact absurd h.symm (frame_ne_nil hheads part' _)
  | cons part rest ih =>
    cases parts' with
    | nil =>
      rw [frames_cons] at h
      exact absurd h (frame_ne_nil hheads part _)
    | cons part' rest' =>
      rw [frames_cons, frames_cons] at h
      obtain ⟨hpart, hrest⟩ := frame_injective hheads _ _ (hfit part (by simp))
        (hfit' part' (by simp)) h
      have htail := ih rest' (fun p hp => hfit p (by simp [hp])) (fun p hp => hfit' p (by simp [hp]))
        hrest
      rw [hpart, htail]

end Foundations
