import Sandcamp.Foundations.Checks

/-!
# Actions on a state that may fail

An action is an `EStateM`: it ends with a value or an error, and with a state either
way. `action_bind_eq_ok` takes a sequence of actions that succeeded apart, and
`ChangesBy R` says what an action does to the state however it ends.
-/

namespace Foundations

variable {ε α β σ : Type}

/-- A check of the present state. -/
def reading (check : σ → Except ε α) : EStateM ε σ α := fun s =>
  match check s with
  | .ok a => .ok a s
  | .error e => .error e s

/-- `for x in xs { action(x)? }`. -/
def forEachAction (action : α → EStateM ε σ Unit) : List α → EStateM ε σ Unit
  | [] => pure ()
  | x :: xs => do
    action x
    forEachAction action xs

/-- `if c { action? }`. -/
def onlyIf (c : Prop) [Decidable c] (action : EStateM ε σ Unit) : EStateM ε σ Unit :=
  if c then action else pure ()

@[simp] theorem pure_run (a : α) (s : σ) : (pure a : EStateM ε σ α) s = .ok a s := rfl

theorem action_bind_eq_ok (x : EStateM ε σ α) (f : α → EStateM ε σ β) (s s' : σ) (b : β) :
    (x >>= f) s = .ok b s' ↔ ∃ a t, x s = .ok a t ∧ f a t = .ok b s' := by
  show EStateM.bind x f s = .ok b s' ↔ _
  unfold EStateM.bind
  cases hx : x s with
  | ok a t =>
    constructor
    · intro h
      exact ⟨a, t, rfl, h⟩
    · rintro ⟨a', t', h, h'⟩
      cases h
      exact h'
  | error e t =>
    constructor
    · intro h
      cases h
    · rintro ⟨a', t', h, -⟩
      cases h

theorem reading_eq_ok (check : σ → Except ε α) (s s' : σ) (a : α) :
    reading check s = .ok a s' ↔ check s = .ok a ∧ s' = s := by
  unfold reading
  cases check s with
  | error e => simp
  | ok b =>
    constructor
    · intro h
      cases h
      exact ⟨rfl, rfl⟩
    · rintro ⟨h, rfl⟩
      cases h
      rfl

theorem adaptExcept_eq_ok {ε' : Type} (f : ε → ε') (x : EStateM ε σ α) (s s' : σ) (a : α) :
    EStateM.adaptExcept f x s = .ok a s' ↔ x s = .ok a s' := by
  unfold EStateM.adaptExcept
  cases x s with
  | ok b t =>
    constructor
    · intro h
      cases h
      rfl
    · intro h
      cases h
      rfl
  | error e t =>
    constructor
    · intro h
      cases h
    · intro h
      cases h

/-! ### Actions that do not panic -/

def Unpanicked (x : EStateM (Failure ε) σ α) : Prop := ∀ s s', x s ≠ .error .panic s'

theorem unpanicked_pure (a : α) : Unpanicked (pure a : EStateM (Failure ε) σ α) := by
  intro s s' h
  cases h

theorem unpanicked_bind (x : EStateM (Failure ε) σ α) (f : α → EStateM (Failure ε) σ β)
    (hx : Unpanicked x) (hf : ∀ a, Unpanicked (f a)) : Unpanicked (x >>= f) := by
  intro s s'
  show EStateM.bind x f s ≠ _
  unfold EStateM.bind
  cases hrun : x s with
  | ok a t => exact hf a t s'
  | error e t =>
    intro h
    obtain ⟨rfl, rfl⟩ := EStateM.Result.error.inj h
    exact hx s t hrun

theorem unpanicked_adaptExcept (x : EStateM ε σ α) :
    Unpanicked (EStateM.adaptExcept Failure.error x) := by
  intro s s' h
  unfold EStateM.adaptExcept at h
  cases hrun : x s with
  | ok a t =>
    rw [hrun] at h
    cases h
  | error e t =>
    rw [hrun] at h
    cases h

theorem unpanicked_reading (check : σ → Except (Failure ε) α) (h : ∀ s, NoPanic (check s)) :
    Unpanicked (reading check) := by
  intro s s' hrun
  unfold reading at hrun
  cases hcheck : check s with
  | ok a =>
    rw [hcheck] at hrun
    cases hrun
  | error e =>
    rw [hcheck] at hrun
    obtain ⟨rfl, rfl⟩ := EStateM.Result.error.inj hrun
    exact h s hcheck

/-! ### How the state changes -/

/-- The state an action leaves, whether it fails or not. -/
def after : EStateM.Result ε σ α → σ
  | .ok _ s => s
  | .error _ s => s

/-- It ends with a value. -/
def succeeds : EStateM.Result ε σ α → Bool
  | .ok _ _ => true
  | .error _ _ => false

theorem exists_of_succeeds {result : EStateM.Result ε σ α} (h : succeeds result = true) :
    ∃ a s, result = .ok a s := by
  cases result with
  | ok a s => exact ⟨a, s, rfl⟩
  | error e s => cases h

/-- However the action ends, the state has changed by `R`. -/
def ChangesBy (R : σ → σ → Prop) (x : EStateM ε σ α) : Prop := ∀ s, R s (after (x s))

section ChangesBy

variable {R : σ → σ → Prop}

theorem ChangesBy.of_ok {x : EStateM ε σ α} (h : ChangesBy R x) {s t : σ} {a : α}
    (hrun : x s = .ok a t) : R s t := by
  have hstate := h s
  rw [hrun] at hstate
  exact hstate

theorem changesBy_pure (hrefl : ∀ s, R s s) (a : α) : ChangesBy R (pure a : EStateM ε σ α) :=
  fun s => hrefl s

theorem changesBy_throw (hrefl : ∀ s, R s s) (e : ε) : ChangesBy R (throw e : EStateM ε σ α) :=
  fun s => hrefl s

theorem changesBy_reading (hrefl : ∀ s, R s s) (check : σ → Except ε α) :
    ChangesBy R (reading check) := by
  intro s
  unfold reading
  cases check s with
  | ok a => exact hrefl s
  | error e => exact hrefl s

theorem changesBy_bind (htrans : ∀ s t u, R s t → R t u → R s u) (x : EStateM ε σ α)
    (f : α → EStateM ε σ β) (hx : ChangesBy R x) (hf : ∀ a, ChangesBy R (f a)) :
    ChangesBy R (x >>= f) := by
  intro s
  have hfirst := hx s
  show R s (after (EStateM.bind x f s))
  unfold EStateM.bind
  cases hrun : x s with
  | ok a t =>
    rw [hrun] at hfirst
    exact htrans s t _ hfirst (hf a t)
  | error e t =>
    rw [hrun] at hfirst
    exact hfirst

/-- The results of a list of actions, each still right in the state the list ends in. -/
theorem mapM_action_spec (hrefl : ∀ s, R s s) (htrans : ∀ s t u, R s t → R t u → R s u)
    (action : α → EStateM ε σ β) (h : ∀ a, ChangesBy R (action a)) (P : σ → α → β → Prop)
    (hspec : ∀ a s b t, action a s = .ok b t → P t a b)
    (hstable : ∀ s t a b, R s t → P s a b → P t a b) (xs : List α) {ys : List β} {s t : σ}
    (hrun : xs.mapM action s = .ok ys t) : R s t ∧ List.Forall₂ (P t) xs ys := by
  induction xs generalizing ys s with
  | nil =>
    rw [List.mapM_nil] at hrun
    cases hrun
    exact ⟨hrefl _, List.Forall₂.nil⟩
  | cons x xs ih =>
    rw [List.mapM_cons] at hrun
    obtain ⟨y, u, hfirst, hrun⟩ := (action_bind_eq_ok _ _ _ _ _).mp hrun
    obtain ⟨zs, v, hrest, hrun⟩ := (action_bind_eq_ok _ _ _ _ _).mp hrun
    cases hrun
    obtain ⟨hR, hall⟩ := ih hrest
    exact ⟨htrans s u _ ((h x).of_ok hfirst) hR,
      List.Forall₂.cons (hstable u _ x y hR (hspec x s y u hfirst)) hall⟩

end ChangesBy

end Foundations
