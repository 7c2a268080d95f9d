import Mathlib.Data.List.Basic
import Sandcamp.Foundations.Interleaving

/-!
# A thread on its own that may be cut off

`solo` runs one thread with a list of choices; where they run out, the thread has been
cut off. A `Break` is an end without a result. `Survives` describes the states a thread
returns in and the states it leaves at every break, `Completes` and `Reaches` are total:
as long as every choice is `fine`, the thread returns, or gets to a state.
-/

namespace Foundations

/-- The end of a thread that does not return. -/
inductive Break (ω ε : Type) where
  | failed (e : ε)
  /-- It was cut off before this operation. -/
  | cutOff (o : ω)

namespace Thread

variable {ω : Type} {A : ω → Type} {ε α β : Type}

/-- How a thread ends that is not run any further. -/
def ending : Thread ω A ε α → Except (Break ω ε) α
  | .pure a => .ok a
  | .fail e => .error (.failed e)
  | .op o _ => .error (.cutOff o)

/-- Whatever the answers are, the thread breaks only in these ways. -/
def Within (p : Break ω ε → Prop) : Thread ω A ε α → Prop
  | .pure _ => True
  | .fail e => p (.failed e)
  | .op o next => p (.cutOff o) ∧ ∀ answer, (next answer).Within p

/-- Every result is of this kind. -/
def Yields (q : α → Prop) : Thread ω A ε α → Prop
  | .pure a => q a
  | .fail _ => True
  | .op _ next => ∀ answer, (next answer).Yields q

theorem yields_bind {q : β → Prop} (t : Thread ω A ε α) (f : α → Thread ω A ε β)
    (hf : ∀ a, (f a).Yields q) : (t >>= f).Yields q := by
  induction t with
  | pure a => exact hf a
  | fail e => trivial
  | op o next ih => exact ih

variable {p : Break ω ε → Prop}

theorem within_bind (t : Thread ω A ε α) (f : α → Thread ω A ε β) (ht : t.Within p)
    (hf : ∀ a, (f a).Within p) : (t >>= f).Within p := by
  induction t with
  | pure a => exact hf a
  | fail e => exact ht
  | op o next ih => exact ⟨ht.1, fun answer => ih answer (ht.2 answer)⟩

theorem within_perform (o : ω) (h : p (.cutOff o)) :
    (perform o : Thread ω A ε (A o)).Within p :=
  ⟨h, fun _ => trivial⟩

theorem within_true (t : Thread ω A ε α) : t.Within fun _ => True := by
  induction t with
  | pure a => trivial
  | fail e => trivial
  | op o next ih => exact ⟨trivial, ih⟩

theorem Within.mono {q : Break ω ε → Prop} {t : Thread ω A ε α} (ht : t.Within p)
    (h : ∀ e, p e → q e) : t.Within q := by
  induction t with
  | pure a => trivial
  | fail e => exact h _ ht
  | op o next ih => exact ⟨h _ ht.1, fun answer => ih answer (ht.2 answer)⟩

end Thread

namespace Machine

variable {ι χ σ ω ε α β : Type} {A : ω → Type}

/-- Performs an operation for each choice; what is left of the thread, and the state. -/
def solo (machine : Machine ι χ σ ω A) (who : ι) :
    List χ → Thread ω A ε α → σ → Thread ω A ε α × σ
  | choice :: choices, .op o next, s =>
    let (answer, left) := machine.perform who o choice s
    solo machine who choices (next answer) left
  | _, t, s => (t, s)

variable {machine : Machine ι χ σ ω A} {who : ι}

@[simp] theorem solo_nil (t : Thread ω A ε α) (s : σ) : machine.solo who [] t s = (t, s) := by
  rw [solo]
  intro _ _ _ _ h
  cases h

@[simp] theorem solo_pure (choices : List χ) (a : α) (s : σ) :
    machine.solo who choices (.pure a : Thread ω A ε α) s = (.pure a, s) := by
  cases choices <;> rfl

@[simp] theorem solo_fail (choices : List χ) (e : ε) (s : σ) :
    machine.solo who choices (.fail e : Thread ω A ε α) s = (.fail e, s) := by
  cases choices <;> rfl

theorem solo_op (choice : χ) (choices : List χ) (o : ω) (next : A o → Thread ω A ε α) (s : σ) :
    machine.solo who (choice :: choices) (.op o next) s =
      machine.solo who choices (next (machine.perform who o choice s).1)
        (machine.perform who o choice s).2 := rfl

/-! ### Partial correctness with breaks -/

/-- Started in `P`, the thread returns in `Q` and breaks only as `C` says. -/
def Survives (machine : Machine ι χ σ ω A) (who : ι) (P : σ → Prop) (t : Thread ω A ε α)
    (Q : α → σ → Prop) (C : Break ω ε → σ → Prop) : Prop :=
  ∀ choices s, P s → match (machine.solo who choices t s).1.ending with
    | .ok a => Q a (machine.solo who choices t s).2
    | .error e => C e (machine.solo who choices t s).2

variable {P P' : σ → Prop} {Q : α → σ → Prop} {C : Break ω ε → σ → Prop}

theorem Survives.broken {t : Thread ω A ε α} (h : Survives machine who P t Q C) {s : σ} (hP : P s)
    (choices : List χ) {e : Break ω ε} (he : (machine.solo who choices t s).1.ending = .error e) :
    C e (machine.solo who choices t s).2 := by
  have hmatch := h choices s hP
  rw [he] at hmatch
  exact hmatch

/-- What holds however the thread ends. -/
theorem Survives.state {t : Thread ω A ε α} {I : σ → Prop}
    (h : Survives machine who P t (fun _ => I) (fun _ => I)) {s : σ} (hP : P s)
    (choices : List χ) : I (machine.solo who choices t s).2 := by
  have hmatch := h choices s hP
  split at hmatch
  · exact hmatch
  · exact hmatch

theorem survives_pure (a : α) (h : ∀ s, P s → Q a s) :
    Survives machine who P (Pure.pure a : Thread ω A ε α) Q C := by
  intro choices s hP
  show match (machine.solo who choices (.pure a : Thread ω A ε α) s).1.ending with
    | .ok b => Q b (machine.solo who choices (.pure a : Thread ω A ε α) s).2
    | .error e => C e (machine.solo who choices (.pure a : Thread ω A ε α) s).2
  rw [solo_pure]
  exact h s hP

theorem survives_fail (e : ε) (h : ∀ s, P s → C (.failed e) s) :
    Survives machine who P (.fail e : Thread ω A ε α) Q C := by
  intro choices s hP
  rw [solo_fail]
  exact h s hP

theorem survives_of_forall (t : Thread ω A ε α) (hQ : ∀ a s, Q a s) (hC : ∀ e s, C e s) :
    Survives machine who P t Q C := by
  intro choices s _
  split
  · exact hQ _ _
  · exact hC _ _

theorem survives_false (t : Thread ω A ε α) (h : ∀ s, ¬P s) : Survives machine who P t Q C :=
  fun _ s hP => absurd hP (h s)

theorem survives_op (o : ω) (next : A o → Thread ω A ε α) (R : A o → σ → Prop)
    (hcut : ∀ s, P s → C (.cutOff o) s)
    (hstep : ∀ choice s, P s →
      R (machine.perform who o choice s).1 (machine.perform who o choice s).2)
    (hnext : ∀ answer, Survives machine who (R answer) (next answer) Q C) :
    Survives machine who P (.op o next) Q C := by
  intro choices s hP
  cases choices with
  | nil =>
    rw [solo_nil]
    exact hcut s hP
  | cons choice choices =>
    rw [solo_op]
    exact hnext _ choices _ (hstep choice s hP)

theorem survives_perform (o : ω) {R : A o → σ → Prop} (hcut : ∀ s, P s → C (.cutOff o) s)
    (hstep : ∀ choice s, P s →
      R (machine.perform who o choice s).1 (machine.perform who o choice s).2) :
    Survives machine who P (Thread.perform o : Thread ω A ε (A o)) R C :=
  survives_op o _ R hcut hstep fun answer => survives_pure answer fun _ h => h

theorem survives_pre (t : Thread ω A ε α) (ht : Survives machine who P' t Q C)
    (h : ∀ s, P s → P' s) : Survives machine who P t Q C :=
  fun choices s hP => ht choices s (h s hP)

theorem survives_post {Q' : α → σ → Prop} {C' : Break ω ε → σ → Prop} (t : Thread ω A ε α)
    (ht : Survives machine who P t Q' C') (hQ : ∀ a s, Q' a s → Q a s)
    (hC : ∀ e s, C' e s → C e s) : Survives machine who P t Q C := by
  intro choices s hP
  have hmatch := ht choices s hP
  split at hmatch
  · exact hQ _ _ hmatch
  · exact hC _ _ hmatch

/-- The first operation taken off a thread. -/
theorem Survives.next {o : ω} {next : A o → Thread ω A ε α}
    (h : Survives machine who P (.op o next) Q C) (answer : A o) :
    Survives machine who (fun left => ∃ choice s, P s ∧ machine.perform who o choice s =
      (answer, left)) (next answer) Q C := by
  intro choices left hleft
  obtain ⟨choice, s, hP, hstep⟩ := hleft
  have hmatch := h (choice :: choices) s hP
  rw [solo_op, hstep] at hmatch
  exact hmatch

theorem survives_bind {R : β → σ → Prop} (t : Thread ω A ε α) (f : α → Thread ω A ε β)
    (ht : Survives machine who P t Q C) (hf : ∀ a, Survives machine who (Q a) (f a) R C) :
    Survives machine who P (t >>= f) R C := by
  induction t generalizing P with
  | pure a =>
    refine survives_pre (f a) (hf a) fun s hP => ?_
    have hmatch := ht [] s hP
    rw [solo_nil] at hmatch
    exact hmatch
  | fail e =>
    refine survives_fail e fun s hP => ?_
    have hmatch := ht [] s hP
    rw [solo_nil] at hmatch
    exact hmatch
  | op o next ih =>
    refine survives_op o _ _ (fun s hP => ?_) (fun choice s hP => ⟨choice, s, hP, rfl⟩)
      fun answer => ih answer (ht.next answer)
    have hmatch := ht [] s hP
    rw [solo_nil] at hmatch
    exact hmatch

/-- Operations that keep `P` keep it up to wherever the thread ends. -/
theorem survives_within {p : Break ω ε → Prop} (t : Thread ω A ε α) (ht : t.Within p)
    (hstep : ∀ o, p (.cutOff o) → ∀ choice s, P s → P (machine.perform who o choice s).2) :
    Survives machine who P t (fun _ => P) (fun e s => p e ∧ P s) := by
  induction t with
  | pure a => exact survives_pure a fun _ h => h
  | fail e => exact survives_fail e fun _ h => ⟨ht, h⟩
  | op o next ih =>
    exact survives_op o next _ (fun _ h => ⟨ht.1, h⟩) (hstep o ht.1)
      fun answer => ih answer (ht.2 answer)

theorem Survives.yields {q : α → Prop} {t : Thread ω A ε α} (h : Survives machine who P t Q C)
    (ht : t.Yields q) : Survives machine who P t (fun a s => q a ∧ Q a s) C := by
  have hvalue : ∀ choices (t : Thread ω A ε α) s a, t.Yields q →
      (machine.solo who choices t s).1.ending = .ok a → q a := by
    intro choices
    induction choices with
    | nil =>
      intro t s a ht ha
      cases t with
      | pure b => cases ha; exact ht
      | fail e => cases ha
      | op o next => cases ha
    | cons choice choices ih =>
      intro t s a ht ha
      cases t with
      | pure b => cases ha; exact ht
      | fail e => cases ha
      | op o next => exact ih _ _ a (ht _) ha
  intro choices s hP
  have hmatch := h choices s hP
  split
  · rename_i a ha
    rw [ha] at hmatch
    exact ⟨hvalue choices t s a ht ha, hmatch⟩
  · rename_i e he
    rw [he] at hmatch
    exact hmatch

/-! ### Total correctness -/

/-- With fine choices the thread returns, in `Q`. -/
def Completes (machine : Machine ι χ σ ω A) (who : ι) (fine : χ → Prop) :
    Thread ω A ε α → σ → (α → σ → Prop) → Prop
  | .pure a, s, Q => Q a s
  | .fail _, _, _ => False
  | .op o next, s, Q => ∀ choice, fine choice →
    Completes machine who fine (next (machine.perform who o choice s).1)
      (machine.perform who o choice s).2 Q

/-- With fine choices the thread gets to a state in `G`. -/
def Reaches (machine : Machine ι χ σ ω A) (who : ι) (fine : χ → Prop) (G : σ → Prop) :
    Thread ω A ε α → σ → Prop
  | .op o next, s => G s ∨ ∀ choice, fine choice →
    Reaches machine who fine G (next (machine.perform who o choice s).1)
      (machine.perform who o choice s).2
  | .pure _, s | .fail _, s => G s

variable {fine : χ → Prop} {G : σ → Prop}

theorem completes_perform (o : ω) (s : σ) {R : A o → σ → Prop}
    (h : ∀ choice, fine choice →
      R (machine.perform who o choice s).1 (machine.perform who o choice s).2) :
    Completes machine who fine (Thread.perform o : Thread ω A ε (A o)) s R := h

theorem completes_bind {R : β → σ → Prop} (t : Thread ω A ε α) (f : α → Thread ω A ε β) (s : σ)
    (ht : Completes machine who fine t s Q)
    (hf : ∀ a s, Q a s → Completes machine who fine (f a) s R) :
    Completes machine who fine (t >>= f) s R := by
  induction t generalizing s with
  | pure a => exact hf a s ht
  | fail e => exact ht
  | op o next ih => exact fun choice hfine => ih _ _ (ht choice hfine)

theorem reaches_bind (t : Thread ω A ε α) (f : α → Thread ω A ε β) (s : σ)
    (ht : Completes machine who fine t s Q)
    (hf : ∀ a s, Q a s → Reaches machine who fine G (f a) s) :
    Reaches machine who fine G (t >>= f) s := by
  induction t generalizing s with
  | pure a => exact hf a s ht
  | fail e => exact absurd ht id
  | op o next ih => exact Or.inr fun choice hfine => ih _ _ (ht choice hfine)

theorem reaches_now (t : Thread ω A ε α) {s : σ} (h : G s) : Reaches machine who fine G t s := by
  cases t with
  | pure a => exact h
  | fail e => exact h
  | op o next => exact Or.inl h

theorem reaches_left (t : Thread ω A ε α) (f : α → Thread ω A ε β) (s : σ)
    (ht : Reaches machine who fine G t s) : Reaches machine who fine G (t >>= f) s := by
  induction t generalizing s with
  | pure a => exact reaches_now (f a) ht
  | fail e => exact ht
  | op o next ih =>
    rcases ht with hnow | hlater
    · exact Or.inl hnow
    · exact Or.inr fun choice hfine => ih _ _ (hlater choice hfine)

/-- Under every schedule of fine choices the state is reached after some of them. -/
theorem solo_of_reaches (t : Thread ω A ε α) (s : σ) (h : Reaches machine who fine G t s)
    (schedule : ℕ → χ) (hfine : ∀ k, fine (schedule k)) :
    ∃ n, G (machine.solo who ((List.range n).map schedule) t s).2 := by
  induction t generalizing s schedule with
  | pure a => exact ⟨0, h⟩
  | fail e => exact ⟨0, h⟩
  | op o next ih =>
    rcases h with hnow | hlater
    · exact ⟨0, hnow⟩
    · obtain ⟨n, hn⟩ := ih _ _ (hlater (schedule 0) (hfine 0)) (fun k => schedule (k + 1))
        fun k => hfine (k + 1)
      refine ⟨n + 1, ?_⟩
      rw [List.range_succ_eq_map, List.map_cons, List.map_map, solo_op]
      exact hn

end Machine

end Foundations
