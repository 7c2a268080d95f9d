import Sandcamp.Foundations.Passage

/-!
# The record of a program logic

`Logic` holds what a proof about a sequential program needs: the judgement and a rule for each
operation. A proof over the record walks a program once and says the same in every logic. There
are two of them here: the triples of a fixed assertion that holds wherever a run stops, and the
programs that get around by the steps of a fixed relation.
-/

namespace Foundations.Program

/-- The step may be taken, and `R` holds at its end. -/
structure Leads {σ τ : Type} (step : Place σ τ → Place σ τ → Prop) (R : Assertion σ τ) (s : σ)
    (t : List τ) (s' : σ) (t' : List τ) : Prop where
  step : step (s, t) (s', t')
  post : R s' t'

structure Logic (σ ι τ ε : Type) where
  Holds : {α : Type} → Assertion σ τ → Program σ ι τ ε α → (α → Assertion σ τ) → Prop
  /-- A run may stop here. -/
  stop : Assertion σ τ
  /-- A run may raise this error here. -/
  raised : ε → Assertion σ τ
  /-- A run may get from the one place to the other. -/
  step : Place σ τ → Place σ τ → Prop
  pure : ∀ {α : Type} {P : Assertion σ τ} {Q : α → Assertion σ τ} (a : α),
    (∀ s t, P s t → Q a s t) → Holds P (Pure.pure a : Program σ ι τ ε α) Q
  bind : ∀ {α β : Type} {P : Assertion σ τ} {Q : α → Assertion σ τ} {R : β → Assertion σ τ}
    {p : Program σ ι τ ε α} {f : α → Program σ ι τ ε β},
    Holds P p Q → (∀ a, Holds (Q a) (f a) R) → Holds P (p >>= f) R
  conseq : ∀ {α : Type} {P P' : Assertion σ τ} {Q Q' : α → Assertion σ τ}
    {p : Program σ ι τ ε α}, Holds P' p Q' → (∀ s t, P s t → P' s t) →
      (∀ a s t, Q' a s t → Q a s t) → Holds P p Q
  ghost : ∀ {α : Type} {P : Assertion σ τ} {Q : α → Assertion σ τ} {p : Program σ ι τ ε α},
    (∀ s₀ t₀, P s₀ t₀ → Holds (fun s t => s = s₀ ∧ t = t₀) p Q) → Holds P p Q
  get : ∀ {P : Assertion σ τ}, Holds P get fun a s t => a = s ∧ P s t
  next : ∀ {P : Assertion σ τ}, (∀ s t, P s t → stop s t) → Holds P next fun _ => P
  modify : ∀ {P R : Assertion σ τ} (f : σ → σ), (∀ s t, P s t → Leads step R s t (f s) t) →
    Holds P (modify f) fun _ => R
  record : ∀ {P R : Assertion σ τ} (entry : σ → τ),
    (∀ s t, P s t → Leads step R s t s (entry s :: t)) → Holds P (record entry) fun _ => R
  /-- An update and the entry that tells of it are one step. -/
  update : ∀ {P R : Assertion σ τ} (f : σ → σ) (entry : σ → τ),
    (∀ s t, P s t → Leads step R s t (f s) (entry (f s) :: t)) →
      Holds P (Program.modify f >>= fun _ => Program.record entry) fun _ => R
  raise : ∀ {α : Type} {P : Assertion σ τ} {Q : α → Assertion σ τ} (e : ε),
    (∀ s t, P s t → raised e s t) → Holds P (raise e) Q
  loop : ∀ {α β : Type} {Q : α → Assertion σ τ} {I : β → Assertion σ τ}
    (body : β → Program σ ι τ ε (Round β α)) (b : β),
    (∀ b, Holds (I b) (body b) fun round s t => match round with
      | .again b => I b s t
      | .done a => Q a s t) →
    (∀ b s t, I b s t → stop s t) → Holds (I b) (loop body b) Q

variable {σ ι τ ε α β : Type}

namespace Logic

/-! ### The logics -/

/-- Triples: wherever a run stops, `E` holds. -/
def triples (E : Assertion σ τ) : Logic σ ι τ ε where
  Holds := fun P p Q => Triple P p Q E
  stop := E
  raised := fun _ => E
  step := fun _ _ => True
  pure := triple_pure
  bind := triple_bind _ _
  conseq := triple_conseq _
  ghost := triple_ghost _
  get := triple_get
  next := triple_next
  modify := fun f h => triple_modify f fun s t hp => (h s t hp).post
  record := fun entry h => triple_record entry fun s t hp => (h s t hp).post
  update := fun _ _ h r hr => (h r.state r.trace hr).post
  raise := triple_raise
  loop := triple_loop

/-- Programs that get around by `step` and raise nothing but errors in `X`. -/
def guided (step : Place σ τ → Place σ τ → Prop) (X : ε → Prop) : Logic σ ι τ ε where
  Holds := fun P p Q => Guided P step X Q p
  stop := anywhere
  raised := fun e _ _ => X e
  step := step
  pure := guided_pure
  bind := guided_bind
  conseq := Guided.conseq
  ghost := guided_ghost
  get := ⟨confined_get, triple_get⟩
  next := fun _ => ⟨confined_next, triple_next fun _ _ _ => trivial⟩
  modify := fun f h =>
    ⟨confined_modify f fun s t hp => (h s t hp).step, triple_modify f fun s t hp => (h s t hp).post⟩
  record := fun entry h =>
    ⟨confined_record entry fun s t hp => (h s t hp).step,
      triple_record entry fun s t hp => (h s t hp).post⟩
  update := fun f entry h =>
    ⟨confined_update f entry fun s t hp => (h s t hp).step, fun r hr => (h r.state r.trace hr).post⟩
  raise := guided_raise
  loop := fun body b hbody _ => guided_loop body b hbody

variable {P : Assertion σ τ} {Q : α → Assertion σ τ} {E : Assertion σ τ}
  {step : Place σ τ → Place σ τ → Prop} {X : ε → Prop} {p : Program σ ι τ ε α}

theorem triple (h : (triples E).Holds P p Q) : Triple P p Q E := h

theorem toGuided (h : (guided step X).Holds P p Q) : Guided P step X Q p := h

/-! ### Derived rules -/

variable (L : Logic σ ι τ ε) {P' : Assertion σ τ} {Q' : α → Assertion σ τ}

theorem pre {p : Program σ ι τ ε α} (h : L.Holds P' p Q) (hpre : ∀ s t, P s t → P' s t) :
    L.Holds P p Q :=
  L.conseq h hpre fun _ _ _ h => h

theorem post {p : Program σ ι τ ε α} (h : L.Holds P p Q') (hpost : ∀ a s t, Q' a s t → Q a s t) :
    L.Holds P p Q :=
  L.conseq h (fun _ _ h => h) hpost

/-- A fixed fact may be assumed. -/
theorem fact {φ : Prop} {p : Program σ ι τ ε α} (h : φ → L.Holds P p Q) :
    L.Holds (fun s t => φ ∧ P s t) p Q := by
  refine L.ghost fun s₀ t₀ hp => L.pre (h hp.1) ?_
  rintro s t ⟨rfl, rfl⟩
  exact hp.2

theorem ofExcept (x : Except ε α) (hvalue : ∀ a, x = .ok a → ∀ s t, P s t → Q a s t)
    (hraise : ∀ e, x = .error e → ∀ s t, P s t → L.raised e s t) :
    L.Holds P (ofExcept x : Program σ ι τ ε α) Q := by
  cases x with
  | ok a => exact L.pure a (hvalue a rfl)
  | error e => exact L.raise e (hraise e rfl)

/-- An update and its entry, before the rest. -/
theorem updateBind {R : Assertion σ τ} (f : σ → σ) (entry : σ → τ)
    (rest : Program σ ι τ ε α)
    (h : ∀ s t, P s t → Leads L.step R s t (f s) (entry (f s) :: t))
    (hrest : L.Holds R rest Q) :
    L.Holds P (do
      Program.modify f
      Program.record entry
      rest) Q := by
  have hassoc : (do
      Program.modify f
      Program.record entry
      rest : Program σ ι τ ε α) =
        (Program.modify f >>= fun _ => Program.record entry) >>= fun _ => rest := rfl
  rw [hassoc]
  exact L.bind (L.update f entry h) fun _ => hrest

/-- `I done` holds after the rounds of `done`, the elements that come before. -/
theorem each {I : List α → Assertion σ τ} (body : α → Program σ ι τ ε Unit) (xs : List α)
    (hbody : ∀ done x rest, xs = done ++ x :: rest →
      L.Holds (I done) (body x) fun _ => I (done ++ [x])) :
    L.Holds (I []) (each body xs) fun _ => I xs := by
  have hfrom : ∀ rest done, xs = done ++ rest → L.Holds (I done) (Program.each body rest)
      fun _ => I xs := by
    intro rest
    induction rest with
    | nil =>
      intro done hxs
      rw [List.append_nil] at hxs
      exact L.pure () fun _ _ h => hxs ▸ h
    | cons x rest ih =>
      intro done hxs
      refine L.bind (hbody done x rest hxs) fun _ => ih (done ++ [x]) ?_
      rw [hxs, List.append_assoc]
      rfl
  exact hfrom xs [] rfl

/-- `I done kept` holds after the tests of `done`, of which `kept` is left. -/
theorem retain {I : List α → List α → Assertion σ τ}
    (keep : α → Program σ ι τ ε (Option α)) (xs : List α)
    (hkeep : ∀ done kept x rest, xs = done ++ x :: rest →
      L.Holds (I done kept) (keep x) fun y => I (done ++ [x]) (kept ++ y.toList)) :
    L.Holds (I [] []) (retain keep xs) fun kept => I xs kept := by
  have hfrom : ∀ rest done kept, xs = done ++ rest → L.Holds (I done kept)
      (Program.retain keep rest) fun ys => I (done ++ rest) (kept ++ ys) := by
    intro rest
    induction rest with
    | nil =>
      intro done kept _
      refine L.pure [] fun _ _ h => ?_
      rwa [List.append_nil, List.append_nil]
    | cons x rest ih =>
      intro done kept hxs
      refine L.bind (hkeep done kept x rest hxs) fun y => ?_
      have hrest := ih (done ++ [x]) (kept ++ y.toList) (by rw [hxs, List.append_assoc]; rfl)
      refine L.bind hrest fun ys => L.pure _ fun _ _ h => ?_
      rwa [List.append_assoc, List.append_assoc] at h
  exact hfrom xs [] [] rfl

end Logic

theorem Triple.holds {P : Assertion σ τ} {Q : α → Assertion σ τ} {E : Assertion σ τ}
    {p : Program σ ι τ ε α} (h : Triple P p Q E) : (Logic.triples E).Holds P p Q := h

end Foundations.Program
