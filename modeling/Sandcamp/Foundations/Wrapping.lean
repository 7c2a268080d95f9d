import Mathlib.Algebra.Order.BigOperators.Group.List
import Mathlib.Algebra.Order.Ring.Int

/-!
# Sums in a wrapping counter

A counter of 64 bits that a loop adds to holds the sum modulo `2 ^ 64`. It holds the sum itself
where the terms are bounded and so few that they cannot reach the sign bit.
-/

namespace Foundations

variable {α : Type} (f : α → Int64)

/-- The exact sum of the terms. -/
def exactSum (xs : List α) : ℤ := (xs.map fun x => (f x).toInt).sum

theorem foldl_add_eq_ofInt (xs : List α) (start : Int64) :
    xs.foldl (fun sum x => sum + f x) start = Int64.ofInt (start.toInt + exactSum f xs) := by
  induction xs generalizing start with
  | nil => simp [exactSum]
  | cons x rest ih =>
    have hadd : Int64.ofInt (start + f x).toInt = Int64.ofInt (start.toInt + (f x).toInt) := by
      rw [Int64.ofInt_toInt, Int64.ofInt_add, Int64.ofInt_toInt, Int64.ofInt_toInt]
    rw [List.foldl_cons, ih, Int64.ofInt_add, hadd, ← Int64.ofInt_add]
    simp [exactSum, add_assoc]

variable {f}

theorem exactSum_bounds {xs : List α} {bound : ℤ}
    (h : ∀ x ∈ xs, 0 ≤ (f x).toInt ∧ (f x).toInt ≤ bound) :
    0 ≤ exactSum f xs ∧ exactSum f xs ≤ xs.length * bound := by
  constructor
  · refine List.sum_nonneg fun term hterm => ?_
    obtain ⟨x, hx, rfl⟩ := List.mem_map.mp hterm
    exact (h x hx).1
  · have hsum := List.sum_le_card_nsmul (xs.map fun x => (f x).toInt) bound fun term hterm => by
      obtain ⟨x, hx, rfl⟩ := List.mem_map.mp hterm
      exact (h x hx).2
    rw [List.length_map, nsmul_eq_mul] at hsum
    exact hsum

/-- Few terms, each within the bound: the counter has not wrapped around. -/
theorem toInt_foldl_add {xs : List α} {bound : ℤ}
    (h : ∀ x ∈ xs, 0 ≤ (f x).toInt ∧ (f x).toInt ≤ bound) (hfit : xs.length * bound < 2 ^ 63) :
    (xs.foldl (fun sum x => sum + f x) 0).toInt = exactSum f xs := by
  obtain ⟨hlow, hhigh⟩ := exactSum_bounds h
  rw [foldl_add_eq_ofInt, Int64.toInt_zero, zero_add]
  exact Int64.toInt_ofInt_of_le (by omega) (by omega)

end Foundations
