import Mathlib.Logic.Relation
import Sandcamp.Foundations.Program

/-!
# Where a program passes, and what it raises

`Passes P step p`: started in `P`, and whatever the schedule is, `p` gets from place to place
by steps of this kind; what the steps keep, the program keeps, and every prefix of it.
`Raises P p X`: started in `P`, it raises nothing but errors in `X`. A program that does both is
`Confined`.
-/

namespace Foundations.Program

variable {σ ι τ ε α β : Type}

/-- A state with what has been recorded by then. -/
abbrev Place (σ τ : Type) := σ × List τ

def Run.place (r : Run σ ι τ) : Place σ τ := (r.state, r.trace)

def Passes (P : Assertion σ τ) (step : Place σ τ → Place σ τ → Prop) (p : Program σ ι τ ε α) :
    Prop :=
  ∀ r, P r.state r.trace → Relation.ReflTransGen step (Run.place r) (Run.place (p r).2)

def Raises (P : Assertion σ τ) (p : Program σ ι τ ε α) (X : ε → Prop) : Prop :=
  ∀ r, P r.state r.trace → ∀ e, (p r).1 = .raised e → X e

/-- No demand on the place. -/
def anywhere : Assertion σ τ := fun _ _ => True

variable {step : Place σ τ → Place σ τ → Prop} {P P' : Assertion σ τ} {Q : α → Assertion σ τ}
  {E : Assertion σ τ} {X : ε → Prop}

theorem triple_anywhere (p : Program σ ι τ ε α) :
    Triple P p (fun _ => anywhere) anywhere := by
  intro r _
  rcases p r with ⟨outcome, r'⟩
  cases outcome <;> trivial

/-! ### Passing -/

theorem Passes.pre {p : Program σ ι τ ε α} (h : Passes P' step p)
    (hpre : ∀ s t, P s t → P' s t) : Passes P step p :=
  fun r hr => h r (hpre r.state r.trace hr)

theorem passes_pure (a : α) : Passes P step (Pure.pure a : Program σ ι τ ε α) := fun _ _ => .refl

theorem passes_bind {p : Program σ ι τ ε α} {f : α → Program σ ι τ ε β} (hp : Passes P step p)
    (ht : Triple P p Q E) (hf : ∀ a, Passes (Q a) step (f a)) : Passes P step (p >>= f) := by
  intro r hr
  have hfirst := hp r hr
  have hpost := ht r hr
  show Relation.ReflTransGen step _ (Run.place (Program.bind p f r).2)
  rw [Program.bind]
  rcases hpr : p r with ⟨outcome, r'⟩
  rw [hpr] at hfirst hpost
  cases outcome with
  | value a => exact hfirst.trans (hf a r' hpost)
  | raised e => exact hfirst
  | pending => exact hfirst

theorem passes_modify (f : σ → σ) (h : ∀ s t, P s t → step (s, t) (f s, t)) :
    Passes P step (modify f : Program σ ι τ ε Unit) :=
  fun r hr => .single (h r.state r.trace hr)

theorem passes_record (entry : σ → τ) (h : ∀ s t, P s t → step (s, t) (s, entry s :: t)) :
    Passes P step (record entry : Program σ ι τ ε Unit) :=
  fun r hr => .single (h r.state r.trace hr)

theorem passes_next : Passes P step (next : Program σ ι τ ε ι) := by
  intro r _
  cases hs : r.schedule with
  | nil =>
    simp only [next, hs]
    exact .refl
  | cons i rest =>
    simp only [next, hs]
    exact .refl

theorem passes_loop {I : β → Assertion σ τ} (body : β → Program σ ι τ ε (Round β α)) (b : β)
    (hbody : ∀ b, Passes (I b) step (body b))
    (hkeep : ∀ b, Triple (I b) (body b)
      (fun round s t => match round with
        | .again b => I b s t
        | .done _ => True) anywhere) : Passes (I b) step (loop body b) := by
  have hwithin : ∀ fuel b, Passes (I b) step (loopWithin body fuel b) := by
    intro fuel
    induction fuel with
    | zero => exact fun _ _ _ => .refl
    | succ fuel ih =>
      intro b
      refine passes_bind (hbody b) (hkeep b) fun round => ?_
      cases round with
      | again b => exact ih b
      | done a => exact passes_pure a
  exact fun r hr => hwithin _ b r hr

/-- The rule of invariants, for the end of the program and for wherever it stops before. -/
theorem Passes.triple {p : Program σ ι τ ε α} {I : Assertion σ τ} (h : Passes P step p)
    (hstep : ∀ s t s' t', step (s, t) (s', t') → I s t → I s' t') :
    Triple (fun s t => P s t ∧ I s t) p (fun _ => I) I := by
  intro r hr
  have hpath : ∀ place, Relation.ReflTransGen step (Run.place r) place → I place.1 place.2 := by
    intro place hplace
    induction hplace with
    | refl => exact hr.2
    | tail _ hlast ih => exact hstep _ _ _ _ hlast ih
  have hend := hpath _ (h r hr.1)
  rcases hpr : p r with ⟨outcome, r'⟩
  rw [hpr] at hend
  cases outcome <;> exact hend

/-! ### Raising -/

theorem raises_pure (a : α) : Raises P (Pure.pure a : Program σ ι τ ε α) X := by
  intro r _ e h
  cases h

theorem raises_bind {p : Program σ ι τ ε α} {f : α → Program σ ι τ ε β} (hp : Raises P p X)
    (ht : Triple P p Q E) (hf : ∀ a, Raises (Q a) (f a) X) : Raises P (p >>= f) X := by
  intro r hr e he
  have h := ht r hr
  have hraised := hp r hr
  have hbind : (Program.bind p f r).1 = .raised e := he
  rw [Program.bind] at hbind
  rcases hpr : p r with ⟨outcome, r'⟩
  rw [hpr] at h hraised hbind
  cases outcome with
  | value a => exact hf a r' h e hbind
  | raised e' =>
    cases hbind
    exact hraised e rfl
  | pending => cases hbind

theorem Raises.pre {p : Program σ ι τ ε α} (h : Raises P' p X) (hpre : ∀ s t, P s t → P' s t) :
    Raises P p X :=
  fun r hr => h r (hpre r.state r.trace hr)

theorem raises_raise (e : ε) (h : ∀ s t, P s t → X e) :
    Raises P (raise e : Program σ ι τ ε α) X := by
  intro r hr e' he
  cases he
  exact h r.state r.trace hr

theorem raises_loop {I : β → Assertion σ τ} (body : β → Program σ ι τ ε (Round β α)) (b : β)
    (hbody : ∀ b, Raises (I b) (body b) X)
    (hkeep : ∀ b, Triple (I b) (body b)
      (fun round s t => match round with
        | .again b => I b s t
        | .done _ => True) anywhere) : Raises (I b) (loop body b) X := by
  have hwithin : ∀ fuel b, Raises (I b) (loopWithin body fuel b) X := by
    intro fuel
    induction fuel with
    | zero =>
      intro b r _ e h
      cases h
    | succ fuel ih =>
      intro b
      refine raises_bind (hbody b) (hkeep b) fun round => ?_
      cases round with
      | again b => exact ih b
      | done a => exact raises_pure a
  exact fun r hr => hwithin _ b r hr

/-! ### Both -/

/-- Started in `P`, the program gets around by these steps and raises nothing but errors in `X`. -/
structure Confined (P : Assertion σ τ) (step : Place σ τ → Place σ τ → Prop) (X : ε → Prop)
    (p : Program σ ι τ ε α) : Prop where
  passes : Passes P step p
  raises : Raises P p X

theorem Confined.pre {p : Program σ ι τ ε α} (h : Confined P' step X p)
    (hpre : ∀ s t, P s t → P' s t) : Confined P step X p :=
  ⟨h.passes.pre hpre, h.raises.pre hpre⟩

/-- Wherever a program is confined from anywhere, it is confined. -/
theorem Confined.here {p : Program σ ι τ ε α} (h : Confined anywhere step X p) :
    Confined P step X p :=
  h.pre fun _ _ _ => trivial

theorem Confined.raising {p : Program σ ι τ ε α} {wider : ε → Prop} (h : Confined P step X p)
    (hX : ∀ e, X e → wider e) : Confined P step wider p :=
  ⟨h.passes, fun r hr e he => hX e (h.raises r hr e he)⟩

/-- What the steps keep, a confined program keeps. -/
theorem Confined.keeps {p : Program σ ι τ ε α} {I : Assertion σ τ}
    (h : Confined anywhere step X p) (hstep : ∀ s t s' t', step (s, t) (s', t') → I s t → I s' t') :
    Triple I p (fun _ => I) I :=
  triple_pre _ (h.passes.triple hstep) fun _ _ hI => ⟨trivial, hI⟩

theorem confined_pure (a : α) : Confined P step X (Pure.pure a : Program σ ι τ ε α) :=
  ⟨passes_pure a, raises_pure a⟩

theorem confined_bind {p : Program σ ι τ ε α} {f : α → Program σ ι τ ε β}
    (hp : Confined P step X p) (ht : Triple P p Q E) (hf : ∀ a, Confined (Q a) step X (f a)) :
    Confined P step X (p >>= f) :=
  ⟨passes_bind hp.passes ht fun a => (hf a).passes,
    raises_bind hp.raises ht fun a => (hf a).raises⟩

theorem confined_get : Confined P step X (get : Program σ ι τ ε σ) where
  passes := fun _ _ => .refl
  raises := by
    intro r _ e h
    cases h

theorem confined_modify (f : σ → σ) (h : ∀ s t, P s t → step (s, t) (f s, t)) :
    Confined P step X (modify f : Program σ ι τ ε Unit) where
  passes := passes_modify f h
  raises := by
    intro r _ e h
    cases h

theorem confined_record (entry : σ → τ) (h : ∀ s t, P s t → step (s, t) (s, entry s :: t)) :
    Confined P step X (record entry : Program σ ι τ ε Unit) where
  passes := passes_record entry h
  raises := by
    intro r _ e h
    cases h

/-- An update and the entry that tells of it are one step. -/
theorem confined_update (f : σ → σ) (entry : σ → τ)
    (h : ∀ s t, P s t → step (s, t) (f s, entry (f s) :: t)) :
    Confined P step X
      (modify f >>= fun _ => record entry : Program σ ι τ ε Unit) where
  passes := fun r hr => .single (h r.state r.trace hr)
  raises := by
    intro r _ e h
    cases h

theorem confined_next : Confined P step X (next : Program σ ι τ ε ι) where
  passes := passes_next
  raises := by
    intro r _ e h
    cases hs : r.schedule <;> simp [next, hs] at h

/-- A loop is confined if its rounds are, each from what the round before has left. -/
theorem confined_loop {I : β → Assertion σ τ} (body : β → Program σ ι τ ε (Round β α)) (b : β)
    (hbody : ∀ b, Confined (I b) step X (body b))
    (hkeep : ∀ b, Triple (I b) (body b)
      (fun round s t => match round with
        | .again b => I b s t
        | .done _ => True) anywhere) : Confined (I b) step X (loop body b) :=
  ⟨passes_loop body b (fun b => (hbody b).passes) hkeep,
    raises_loop body b (fun b => (hbody b).raises) hkeep⟩

/-- A confined program with what holds at its end. -/
structure Guided (P : Assertion σ τ) (step : Place σ τ → Place σ τ → Prop) (X : ε → Prop)
    (Q : α → Assertion σ τ) (p : Program σ ι τ ε α) : Prop extends Confined P step X p where
  triple : Triple P p Q anywhere

variable {Q' : α → Assertion σ τ}

theorem guided_pure (a : α) (h : ∀ s t, P s t → Q a s t) :
    Guided P step X Q (Pure.pure a : Program σ ι τ ε α) :=
  ⟨confined_pure a, triple_pure a h⟩

theorem guided_bind {R : β → Assertion σ τ} {p : Program σ ι τ ε α} {f : α → Program σ ι τ ε β}
    (hp : Guided P step X Q p) (hf : ∀ a, Guided (Q a) step X R (f a)) :
    Guided P step X R (p >>= f) :=
  ⟨confined_bind hp.toConfined hp.triple fun a => (hf a).toConfined,
    triple_bind p f hp.triple fun a => (hf a).triple⟩

theorem Guided.conseq {p : Program σ ι τ ε α} (h : Guided P' step X Q' p)
    (hpre : ∀ s t, P s t → P' s t) (hpost : ∀ a s t, Q' a s t → Q a s t) :
    Guided P step X Q p :=
  ⟨h.toConfined.pre hpre, triple_conseq p h.triple hpre hpost⟩

/-- The place a program starts from may be named. -/
theorem guided_ghost {p : Program σ ι τ ε α}
    (h : ∀ s₀ t₀, P s₀ t₀ → Guided (fun s t => s = s₀ ∧ t = t₀) step X Q p) :
    Guided P step X Q p where
  passes := fun r hr => (h r.state r.trace hr).passes r ⟨rfl, rfl⟩
  raises := fun r hr => (h r.state r.trace hr).raises r ⟨rfl, rfl⟩
  triple := triple_ghost p fun s₀ t₀ hp => (h s₀ t₀ hp).triple

theorem guided_raise (e : ε) (h : ∀ s t, P s t → X e) :
    Guided P step X Q (raise e : Program σ ι τ ε α) where
  passes := fun _ _ => .refl
  raises := raises_raise e h
  triple := fun _ _ => trivial

theorem guided_loop {I : β → Assertion σ τ} (body : β → Program σ ι τ ε (Round β α)) (b : β)
    (hbody : ∀ b, Guided (I b) step X (fun round s t => match round with
      | .again b => I b s t
      | .done a => Q a s t) (body b)) : Guided (I b) step X Q (loop body b) where
  toConfined := confined_loop body b (fun b => (hbody b).toConfined) fun b =>
    triple_post _ (hbody b).triple fun round s t h => by
      cases round with
      | again b => exact h
      | done a => trivial
  triple := triple_loop body b (fun b => (hbody b).triple) fun _ _ _ _ => trivial

end Foundations.Program
