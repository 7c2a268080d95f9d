import Sandcamp.Foundations.Checks
import Mathlib.Data.List.Pairwise
import Mathlib.Data.List.Infix

/-!
# Families of positions none of which lies inside another

Positions of a tree are lists of names, and one position lies at or under
another when the second is a prefix of the first. A family of mount points is
sound when no member lies at or under another: `Unnested`.
-/

namespace Foundations

variable {α : Type}

/-- One of the two positions lies at or under the other. -/
def Nested (a b : List α) : Prop := a <+: b ∨ b <+: a

/-- No member lies at or under another one. -/
def Unnested (family : List (List α)) : Prop := family.Pairwise fun a b => ¬Nested a b

theorem Nested.symm {a b : List α} (h : Nested a b) : Nested b a := Or.symm h

theorem nested_self (a : List α) : Nested a a := Or.inl (List.prefix_refl a)

theorem unnested_append_singleton (family : List (List α)) (t : List α) :
    Unnested (family ++ [t]) ↔ Unnested family ∧ ∀ p ∈ family, ¬Nested p t := by
  simp [Unnested, List.pairwise_append]

theorem Unnested.sublist {xs ys : List (List α)} (h : Unnested ys) (hs : xs.Sublist ys) :
    Unnested xs :=
  List.Pairwise.sublist hs h

theorem Unnested.perm {xs ys : List (List α)} (h : Unnested xs) (hp : xs.Perm ys) :
    Unnested ys :=
  (hp.pairwise_iff fun hab hba => hab hba.symm).mp h

/-- What lies strictly under `s` is nested with nothing that is not nested with `s`. -/
theorem not_nested_of_under {s c t : List α} (hc : s <+: c) (ht : ¬Nested s t) :
    ¬Nested c t := by
  rintro (h | h)
  · exact ht (Or.inl (hc.trans h))
  · exact ht (List.prefix_or_prefix_of_prefix hc h)

/-- One member may lie strictly under another one: it does, or the family stays unnested. -/
theorem unnested_except_iff (before rest : List (List α)) (s c : List α)
    (h : Unnested (before ++ s :: rest)) :
    (before ++ s :: c :: rest).Pairwise
        (fun a b => ¬Nested a b ∨ (a = s ∧ b = c ∧ s <+: c ∧ s ≠ c)) ↔
      (s <+: c ∧ s ≠ c) ∨ Unnested (before ++ s :: c :: rest) := by
  constructor
  · intro hall
    by_cases hunder : s <+: c ∧ s ≠ c
    · exact Or.inl hunder
    · refine Or.inr (hall.imp fun hab => hab.resolve_right ?_)
      rintro ⟨-, -, hin⟩
      exact hunder hin
  · rintro (hunder | hfree)
    · obtain ⟨hbefore, hrest, hcross⟩ := List.pairwise_append.mp h
      obtain ⟨hs, hrest⟩ := List.pairwise_cons.mp hrest
      have hwith : ∀ t, ¬Nested s t → ¬Nested c t := fun t => not_nested_of_under hunder.1
      refine List.pairwise_append.mpr ⟨hbefore.imp Or.inl, ?_, ?_⟩
      · refine List.pairwise_cons.mpr ⟨?_, List.pairwise_cons.mpr ⟨?_, hrest.imp Or.inl⟩⟩
        · intro t ht
          rcases List.mem_cons.mp ht with rfl | ht
          · exact Or.inr ⟨rfl, rfl, hunder⟩
          · exact Or.inl (hs t ht)
        · intro t ht
          exact Or.inl (hwith t (hs t ht))
      · intro a ha t ht
        have has := hcross a ha s List.mem_cons_self
        rcases List.mem_cons.mp ht with rfl | ht
        · exact Or.inl has
        rcases List.mem_cons.mp ht with rfl | ht
        · refine Or.inl fun hn => hwith a (fun hsa => has hsa.symm) hn.symm
        · exact Or.inl (hcross a ha t (List.mem_cons_of_mem _ ht))
    · exact hfree.imp Or.inl

/-- A loop that claims one target after the other: each item is checked, and refused when
its target is nested with one claimed before. -/
theorem claims_eq_ok {ε ι τ : Type} (claim : List τ → ι → Except ε (List τ))
    (target : ι → τ) (position : τ → List α) (valid : ι → Prop) (good : τ → Prop)
    (hclaim : ∀ targets item targets', (∀ t ∈ targets, good t) →
      (claim targets item = .ok targets' ↔
        valid item ∧
          (∀ previous ∈ targets, ¬Nested (position previous) (position (target item))) ∧
          targets' = targets ++ [target item]))
    (hgood : ∀ item, valid item → good (target item))
    (items : List ι) (targets targets' : List τ)
    (htargets : ∀ t ∈ targets, good t) (hun : Unnested (targets.map position)) :
    items.foldlM claim targets = .ok targets' ↔
      (∀ item ∈ items, valid item) ∧ targets' = targets ++ items.map target ∧
        Unnested (targets'.map position) := by
  induction items generalizing targets with
  | nil =>
    simp only [List.foldlM_nil, List.not_mem_nil, false_implies, implies_true, List.map_nil,
      List.append_nil, true_and]
    constructor
    · intro h
      have he : targets = targets' := Except.ok.inj h
      exact ⟨he.symm, he ▸ hun⟩
    · rintro ⟨rfl, -⟩
      rfl
  | cons item items ih =>
    simp only [foldlM_cons_eq_ok, List.forall_mem_cons, List.map_cons]
    have hstep : ∀ next, claim targets item = .ok next →
        (items.foldlM claim next = .ok targets' ↔
          (∀ item ∈ items, valid item) ∧ targets' = next ++ items.map target ∧
            Unnested (targets'.map position)) := by
      intro next hnext
      obtain ⟨hv, hfree, rfl⟩ := (hclaim targets item next htargets).mp hnext
      refine ih (targets ++ [target item]) ?_ ?_
      · intro t ht
        rcases List.mem_append.mp ht with ht | ht
        · exact htargets t ht
        · rw [List.mem_singleton.mp ht]
          exact hgood item hv
      · rw [List.map_append, List.map_singleton, unnested_append_singleton]
        exact ⟨hun, by simpa using hfree⟩
    constructor
    · rintro ⟨next, hnext, hrest⟩
      obtain ⟨hvs, he, hu⟩ := (hstep next hnext).mp hrest
      obtain ⟨hv, -, rfl⟩ := (hclaim targets item next htargets).mp hnext
      exact ⟨⟨hv, hvs⟩, by rw [he]; simp, hu⟩
    · rintro ⟨⟨hv, hvs⟩, he, hu⟩
      have hstart : Unnested ((targets ++ [target item]).map position) := by
        refine hu.sublist ?_
        rw [he]
        refine List.Sublist.map position (List.Sublist.append_left ?_ targets)
        simp
      rw [List.map_append, List.map_singleton, unnested_append_singleton] at hstart
      have hnext : claim targets item = .ok (targets ++ [target item]) :=
        (hclaim targets item _ htargets).mpr ⟨hv, by simpa using hstart.2, rfl⟩
      exact ⟨_, hnext, (hstep _ hnext).mpr ⟨hvs, by rw [he]; simp, hu⟩⟩

end Foundations
