import Mathlib.Data.List.Basic
import Std.Data.ExtTreeMap

/-!
# Maps rebuilt from their entries

Inserting the entries of a sorted map one by one, in any map that holds none of
their keys, gives the map back.
-/

namespace Foundations.SortedMap

variable {α β : Type} {cmp : α → α → Ordering} [Std.TransCmp cmp]

theorem insertMany_eq_foldl (m : Std.ExtTreeMap α β cmp) (entries : List (α × β)) :
    m.insertMany entries = entries.foldl (fun m entry => m.insert entry.1 entry.2) m := by
  induction entries generalizing m with
  | nil => rw [Std.ExtTreeMap.insertMany_nil, List.foldl_nil]
  | cons entry entries ih =>
    rw [List.foldl_cons, ← ih (m.insert entry.1 entry.2)]
    exact Std.ExtTreeMap.insertMany_cons

variable [BEq α] [Std.LawfulBEqCmp cmp] [Std.LawfulEqCmp cmp]

theorem foldl_insert_toList (m : Std.ExtTreeMap α β cmp) :
    m.toList.foldl (fun m entry => m.insert entry.1 entry.2) (∅ : Std.ExtTreeMap α β cmp) = m := by
  rw [← insertMany_eq_foldl]
  refine Std.ExtTreeMap.ext_getElem? fun k => ?_
  cases hk : m[k]? with
  | some v =>
    exact Std.ExtTreeMap.getElem?_insertMany_list_of_mem Std.ReflCmp.compare_self
      Std.ExtTreeMap.distinct_keys_toList
      (Std.ExtTreeMap.mem_toList_iff_getElem?_eq_some.mpr hk)
  | none =>
    have hfree : (m.toList.map Prod.fst).contains k = false := by
      rw [← Bool.not_eq_true]
      intro hc
      rw [Std.ExtTreeMap.map_fst_toList_eq_keys, Std.ExtTreeMap.contains_keys] at hc
      rw [Std.ExtTreeMap.contains_eq_isSome_getElem?, hk] at hc
      cases hc
    rw [Std.ExtTreeMap.getElem?_insertMany_list_of_contains_eq_false hfree]
    exact Std.ExtTreeMap.getElem?_empty

end Foundations.SortedMap
