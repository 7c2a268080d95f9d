import Mathlib.Data.List.Infix

/-!
# Safety along a trace

A trace holds its newest entry first. `Always p` says that every entry satisfies
`p` together with what had been recorded before it.
-/

namespace Foundations

variable {τ : Type}

def Always (p : τ → List τ → Prop) (trace : List τ) : Prop :=
  ∀ newer entry older, trace = newer ++ entry :: older → p entry older

theorem always_nil (p : τ → List τ → Prop) : Always p [] := by
  intro newer entry older h
  cases newer <;> cases h

theorem always_cons (p : τ → List τ → Prop) (entry : τ) (trace : List τ) :
    Always p (entry :: trace) ↔ p entry trace ∧ Always p trace := by
  constructor
  · intro h
    refine ⟨h [] entry trace rfl, fun newer e older he => ?_⟩
    exact h (entry :: newer) e older (by rw [he, List.cons_append])
  · rintro ⟨hentry, htrace⟩ newer e older he
    cases newer with
    | nil =>
      obtain ⟨rfl, rfl⟩ := List.cons.inj he
      exact hentry
    | cons _ newer => exact htrace newer e older (List.cons.inj he).2

/-- What holds along a trace holds as far as the trace has come before. -/
theorem always_suffix {p : τ → List τ → Prop} {trace earlier : List τ} (h : Always p trace)
    (hsuffix : earlier <:+ trace) : Always p earlier := by
  obtain ⟨later, rfl⟩ := hsuffix
  intro newer entry older he
  refine h (later ++ newer) entry older ?_
  rw [he, List.append_assoc]

/-- What some entry is like, a first entry is like. -/
theorem exists_oldest (p : τ → Prop) (trace : List τ) (h : ∃ entry ∈ trace, p entry) :
    ∃ newer entry older, trace = newer ++ entry :: older ∧ p entry ∧ ∀ e ∈ older, ¬p e := by
  induction trace with
  | nil =>
    obtain ⟨entry, hm, -⟩ := h
    cases hm
  | cons first rest ih =>
    by_cases hrest : ∃ entry ∈ rest, p entry
    · obtain ⟨newer, entry, older, rfl, hentry, holder⟩ := ih hrest
      exact ⟨first :: newer, entry, older, rfl, hentry, holder⟩
    · obtain ⟨entry, hm, hentry⟩ := h
      rcases List.mem_cons.mp hm with rfl | hm
      · exact ⟨[], entry, rest, rfl, hentry, fun e he hp => hrest ⟨e, he, hp⟩⟩
      · exact absurd ⟨entry, hm, hentry⟩ hrest

/-- A trace is split in one way at an entry that is the only one of its kind. -/
theorem split_unique (p : τ → Prop) {newer older newer' older' : List τ} {entry entry' : τ}
    (h : newer ++ entry :: older = newer' ++ entry' :: older') (hentry : p entry')
    (hnewer : ∀ e ∈ newer, ¬p e) (holder : ∀ e ∈ older, ¬p e) :
    newer = newer' ∧ entry = entry' ∧ older = older' := by
  induction newer generalizing newer' with
  | nil =>
    cases newer' with
    | nil => exact ⟨rfl, List.cons.inj h⟩
    | cons first rest =>
      have hm : entry' ∈ older := by
        rw [(List.cons.inj h).2]
        exact List.mem_append_right rest List.mem_cons_self
      exact absurd hentry (holder entry' hm)
  | cons first rest ih =>
    cases newer' with
    | nil =>
      have hsame : first = entry' := (List.cons.inj h).1
      exact absurd (hsame ▸ hentry) (hnewer first List.mem_cons_self)
    | cons first' rest' =>
      obtain ⟨hfirst, hrest⟩ := List.cons.inj h
      obtain ⟨rfl, hsame⟩ := ih hrest fun e he => hnewer e (List.mem_cons_of_mem _ he)
      exact ⟨by rw [hfirst], hsame⟩

end Foundations
