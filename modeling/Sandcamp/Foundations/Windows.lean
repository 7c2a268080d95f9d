import Mathlib.Data.List.Basic
import Mathlib.Data.List.Induction

/-!
# Windows of equal results

A history of results is read oldest first. `WindowEnds value size n history` says that the
`size` results before position `n` are all `value`; `trailing` counts the equal results at
the end of a history. A window ends at the end of a history exactly when enough results
trail.
-/

namespace Foundations

variable {α : Type}

/-- The last `size` of the first `n` results are all `value`. -/
def WindowEnds (value : α) (size n : ℕ) (history : List α) : Prop :=
  size ≤ n ∧ n ≤ history.length ∧ ∀ i, n - size ≤ i → i < n → history[i]? = some value

theorem windowEnds_append (value : α) (size n : ℕ) (history later : List α)
    (h : n ≤ history.length) :
    WindowEnds value size n (history ++ later) ↔ WindowEnds value size n history := by
  have hsame : ∀ i, i < n → (history ++ later)[i]? = history[i]? := fun i hi =>
    List.getElem?_append_left (by omega)
  have hlength : n ≤ (history ++ later).length := by
    rw [List.length_append]
    omega
  constructor
  · rintro ⟨hsize, -, hall⟩
    refine ⟨hsize, h, fun i hlow hi => ?_⟩
    rw [← hsame i hi]
    exact hall i hlow hi
  · rintro ⟨hsize, -, hall⟩
    refine ⟨hsize, hlength, fun i hlow hi => ?_⟩
    rw [hsame i hi]
    exact hall i hlow hi

variable [DecidableEq α]

/-- The number of results at the end that are all `value`. -/
def trailing (value : α) (history : List α) : ℕ :=
  (history.reverse.takeWhile fun result => decide (result = value)).length

theorem trailing_nil (value : α) : trailing value [] = 0 := rfl

theorem trailing_snoc_same (value : α) (history : List α) :
    trailing value (history ++ [value]) = trailing value history + 1 := by
  unfold trailing
  rw [List.reverse_append, List.reverse_singleton, List.singleton_append,
    List.takeWhile_cons_of_pos (by simp), List.length_cons]

theorem trailing_snoc_other (value result : α) (history : List α) (h : result ≠ value) :
    trailing value (history ++ [result]) = 0 := by
  unfold trailing
  rw [List.reverse_append, List.reverse_singleton, List.singleton_append,
    List.takeWhile_cons_of_neg (by simpa using h), List.length_nil]

/-- A window ends at the end exactly when enough results trail. -/
theorem windowEnds_length_iff (value : α) (size : ℕ) (history : List α) :
    WindowEnds value size history.length history ↔ size ≤ trailing value history := by
  induction history using List.reverseRecOn generalizing size with
  | nil =>
    rw [trailing_nil]
    constructor
    · rintro ⟨hsize, -, -⟩
      exact hsize
    · intro hsize
      refine ⟨hsize, Nat.le_refl _, fun i _ hi => ?_⟩
      exact absurd hi (Nat.not_lt_zero i)
  | append_singleton history result ih =>
    have hlast : (history ++ [result])[history.length]? = some result := by
      rw [List.getElem?_append_right (Nat.le_refl _), Nat.sub_self]
      rfl
    rw [List.length_append, List.length_singleton]
    cases size with
    | zero =>
      refine iff_of_true ⟨Nat.zero_le _, ?_, fun i hlow hi => ?_⟩ (Nat.zero_le _)
      · simp
      · omega
    | succ size =>
      by_cases hvalue : result = value
      · subst hvalue
        rw [trailing_snoc_same, Nat.add_le_add_iff_right, ← ih size]
        constructor
        · rintro ⟨hsize, -, hall⟩
          refine ⟨by omega, Nat.le_refl _, fun i hlow hi => ?_⟩
          have hi' := hall i (by omega) (by omega)
          rwa [List.getElem?_append_left hi] at hi'
        · rintro ⟨hsize, -, hall⟩
          refine ⟨by omega, by simp, fun i hlow hi => ?_⟩
          by_cases hnew : i = history.length
          · rw [hnew]
            exact hlast
          · rw [List.getElem?_append_left (by omega)]
            exact hall i (by omega) (by omega)
      · rw [trailing_snoc_other value result history hvalue]
        constructor
        · rintro ⟨hsize, -, hall⟩
          have hnew := hall history.length (by omega) (by omega)
          rw [hlast] at hnew
          exact absurd (Option.some.inj hnew) hvalue
        · intro hsize
          omega

end Foundations
