import Mathlib.Data.List.Basic

/-!
# Sequential programs among asynchronous surroundings

A program owns a state and takes turns with its surroundings: `next` reads one
item of a schedule, which says what happens around the program before its next
interaction and how that interaction ends. The program may record what it does
in a trace (newest entry first). A schedule is finite, so running a program on
all schedules gives all prefixes of all its runs; a loop is bounded by the
schedule it has left, since each of its rounds takes a turn.

`Triple P prog Q E` is the rule for such prefixes: from `P` the program ends
normally in `Q`, and wherever it stops otherwise, `E` holds.
-/

namespace Foundations

structure Run (σ ι τ : Type) where
  state : σ
  schedule : List ι
  trace : List τ

inductive Outcome (ε α : Type) where
  | value (a : α)
  | raised (e : ε)
  /-- The schedule is used up: the run is a prefix. -/
  | pending

def Program (σ ι τ ε α : Type) : Type := Run σ ι τ → Outcome ε α × Run σ ι τ

namespace Program

variable {σ ι τ ε α β : Type}

/-! ### The operations -/

def pure (a : α) : Program σ ι τ ε α := fun r => (.value a, r)

def bind (p : Program σ ι τ ε α) (f : α → Program σ ι τ ε β) : Program σ ι τ ε β := fun r =>
  match p r with
  | (.value a, r) => f a r
  | (.raised e, r) => (.raised e, r)
  | (.pending, r) => (.pending, r)

instance : Monad (Program σ ι τ ε) where
  pure := pure
  bind := bind

def get : Program σ ι τ ε σ := fun r => (.value r.state, r)

def modify (f : σ → σ) : Program σ ι τ ε Unit := fun r => (.value (), { r with state := f r.state })

def raise (e : ε) : Program σ ι τ ε α := fun r => (.raised e, r)

/-- An entry made of the present state is put on the trace. -/
def record (entry : σ → τ) : Program σ ι τ ε Unit := fun r =>
  (.value (), { r with trace := entry r.state :: r.trace })

/-- The next item of the schedule. -/
def next : Program σ ι τ ε ι := fun r =>
  match r.schedule with
  | [] => (.pending, r)
  | i :: rest => (.value i, { r with schedule := rest })

def ofExcept (x : Except ε α) : Program σ ι τ ε α :=
  match x with
  | .ok a => pure a
  | .error e => raise e

/-- How a round of a loop ends. -/
inductive Round (β α : Type) where
  | again (b : β)
  | done (a : α)

def loopWithin (body : β → Program σ ι τ ε (Round β α)) : ℕ → β → Program σ ι τ ε α
  | 0, _ => fun r => (.pending, r)
  | fuel + 1, b => do
    match ← body b with
    | .again b => loopWithin body fuel b
    | .done a => pure a

/-- `loop { .. }`, for a body whose every round takes a turn. -/
def loop (body : β → Program σ ι τ ε (Round β α)) (b : β) : Program σ ι τ ε α := fun r =>
  loopWithin body (r.schedule.length + 1) b r

/-- `for x in xs { .. }`. -/
def each (body : α → Program σ ι τ ε Unit) : List α → Program σ ι τ ε Unit
  | [] => pure ()
  | x :: xs => do
    body x
    each body xs

/-- `xs.retain_mut(keep)`: `keep` gives what becomes of an element it keeps. -/
def retain (keep : α → Program σ ι τ ε (Option α)) : List α → Program σ ι τ ε (List α)
  | [] => pure []
  | x :: xs => do
    let kept ← keep x
    let rest ← retain keep xs
    pure (kept.toList ++ rest)

/-! ### Assertions and triples -/

/-- A statement about the state and the trace. -/
abbrev Assertion (σ τ : Type) := σ → List τ → Prop

def Triple (P : Assertion σ τ) (p : Program σ ι τ ε α) (Q : α → Assertion σ τ)
    (E : Assertion σ τ) : Prop :=
  ∀ r, P r.state r.trace →
    match p r with
    | (.value a, r) => Q a r.state r.trace
    | (_, r) => E r.state r.trace

variable {P P' : Assertion σ τ} {Q Q' : α → Assertion σ τ} {E : Assertion σ τ}

/-- What a triple says about a run that ends normally. -/
theorem Triple.value {p : Program σ ι τ ε α} (h : Triple P p Q E) {r : Run σ ι τ} {a : α}
    (hp : P r.state r.trace) (hrun : (p r).1 = .value a) : Q a (p r).2.state (p r).2.trace := by
  have hr := h r hp
  rcases hpr : p r with ⟨outcome, r'⟩
  rw [hpr] at hr hrun
  obtain rfl : outcome = .value a := hrun
  exact hr

/-- What a triple says about a run wherever it has come to. -/
theorem Triple.reached {p : Program σ ι τ ε α} (h : Triple P p Q E) {r : Run σ ι τ}
    (hp : P r.state r.trace) (hpost : ∀ a s t, Q a s t → E s t) :
    E (p r).2.state (p r).2.trace := by
  have hr := h r hp
  rcases hrun : p r with ⟨outcome, r'⟩
  rw [hrun] at hr
  cases outcome with
  | value a => exact hpost a _ _ hr
  | raised e => exact hr
  | pending => exact hr

theorem triple_pure (a : α) (h : ∀ s t, P s t → Q a s t) :
    Triple P (Pure.pure a : Program σ ι τ ε α) Q E :=
  fun r hr => h r.state r.trace hr

theorem triple_bind {R : β → Assertion σ τ} (p : Program σ ι τ ε α)
    (f : α → Program σ ι τ ε β) (hp : Triple P p Q E) (hf : ∀ a, Triple (Q a) (f a) R E) :
    Triple P (p >>= f) R E := by
  intro r hr
  have h := hp r hr
  show match Program.bind p f r with
    | (.value a, r) => R a r.state r.trace
    | (_, r) => E r.state r.trace
  rw [Program.bind]
  rcases hpr : p r with ⟨outcome, r'⟩
  rw [hpr] at h
  cases outcome with
  | value a => exact hf a r' h
  | raised e => exact h
  | pending => exact h

theorem triple_conseq (p : Program σ ι τ ε α) (hp : Triple P' p Q' E)
    (hpre : ∀ s t, P s t → P' s t) (hpost : ∀ a s t, Q' a s t → Q a s t) : Triple P p Q E := by
  intro r hr
  have h := hp r (hpre r.state r.trace hr)
  rcases hpr : p r with ⟨outcome, r'⟩
  rw [hpr] at h
  cases outcome with
  | value a => exact hpost a _ _ h
  | raised e => exact h
  | pending => exact h

theorem triple_pre (p : Program σ ι τ ε α) (hp : Triple P' p Q E)
    (hpre : ∀ s t, P s t → P' s t) : Triple P p Q E :=
  triple_conseq p hp hpre fun _ _ _ h => h

theorem triple_post (p : Program σ ι τ ε α) (hp : Triple P p Q' E)
    (hpost : ∀ a s t, Q' a s t → Q a s t) : Triple P p Q E :=
  triple_conseq p hp (fun _ _ h => h) hpost

theorem triple_stop {E' : Assertion σ τ} {p : Program σ ι τ ε α} (hp : Triple P p Q E')
    (hstop : ∀ s t, E' s t → E s t) : Triple P p Q E := by
  intro r hr
  have h := hp r hr
  rcases hpr : p r with ⟨outcome, r'⟩
  rw [hpr] at h
  cases outcome with
  | value a => exact h
  | raised e => exact hstop _ _ h
  | pending => exact hstop _ _ h

theorem triple_and {E' : Assertion σ τ} {p : Program σ ι τ ε α} (h : Triple P p Q E)
    (h' : Triple P' p Q' E') : Triple (fun s t => P s t ∧ P' s t) p
      (fun a s t => Q a s t ∧ Q' a s t) (fun s t => E s t ∧ E' s t) := by
  intro r hr
  have hfirst := h r hr.1
  have hsecond := h' r hr.2
  rcases hpr : p r with ⟨outcome, r'⟩
  rw [hpr] at hfirst hsecond
  cases outcome with
  | value a => exact ⟨hfirst, hsecond⟩
  | raised e => exact ⟨hfirst, hsecond⟩
  | pending => exact ⟨hfirst, hsecond⟩

/-- The point a program starts from may be named. -/
theorem triple_ghost (p : Program σ ι τ ε α)
    (h : ∀ s₀ t₀, P s₀ t₀ → Triple (fun s t => s = s₀ ∧ t = t₀) p Q E) : Triple P p Q E :=
  fun r hr => h r.state r.trace hr r ⟨rfl, rfl⟩

theorem triple_get : Triple P (get : Program σ ι τ ε σ) (fun a s t => a = s ∧ P s t) E :=
  fun _ hr => ⟨rfl, hr⟩

theorem triple_modify (f : σ → σ) {R : Assertion σ τ} (h : ∀ s t, P s t → R (f s) t) :
    Triple P (modify f : Program σ ι τ ε Unit) (fun _ => R) E :=
  fun r hr => h r.state r.trace hr

theorem triple_record (entry : σ → τ) {R : Assertion σ τ} (h : ∀ s t, P s t → R s (entry s :: t)) :
    Triple P (record entry : Program σ ι τ ε Unit) (fun _ => R) E :=
  fun r hr => h r.state r.trace hr

theorem triple_raise (e : ε) (h : ∀ s t, P s t → E s t) :
    Triple P (raise e : Program σ ι τ ε α) Q E :=
  fun r hr => h r.state r.trace hr

theorem triple_next (h : ∀ s t, P s t → E s t) :
    Triple P (next : Program σ ι τ ε ι) (fun _ => P) E := by
  intro r hr
  rcases hs : r.schedule with _ | ⟨i, rest⟩
  · simp only [next, hs]
    exact h _ _ hr
  · simp only [next, hs]
    exact hr

/-- What every round keeps, and what the last one makes of it. -/
theorem triple_loop {I : β → Assertion σ τ} (body : β → Program σ ι τ ε (Round β α)) (b : β)
    (hbody : ∀ b, Triple (I b) (body b)
      (fun round s t => match round with
        | .again b => I b s t
        | .done a => Q a s t) E)
    (hstop : ∀ b s t, I b s t → E s t) : Triple (I b) (loop body b) Q E := by
  have hwithin : ∀ fuel b, Triple (I b) (loopWithin body fuel b) Q E := by
    intro fuel
    induction fuel with
    | zero => exact fun b r hr => hstop b _ _ hr
    | succ fuel ih =>
      intro b
      refine triple_bind _ _ (hbody b) fun round => ?_
      cases round with
      | again b => exact ih b
      | done a => exact triple_pure a fun _ _ h => h
  exact fun r hr => hwithin _ b r hr

end Program

end Foundations
