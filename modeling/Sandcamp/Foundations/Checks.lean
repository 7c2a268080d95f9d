import Mathlib.Data.List.Basic
import Mathlib.Data.List.Forall2

/-!
# Validators as early-returning checks

A validator is a sequence of checks in `Except`: `rejectIf c e` fails with `e`
when `c` holds, `forEach` runs one check over a list, `foldlM` threads an
accumulator. The lemmas say when such a sequence succeeds, so that a proof about
an accepted value never unfolds the monad.
-/

namespace Foundations

variable {ε α β γ δ : Type}

/-- How a call can end without a value: with an error of its own, or in a panic. -/
inductive Failure (ε : Type) where
  | error (e : ε)
  | panic
  deriving DecidableEq, Repr

/-- `option.expect(..)`, and an indexing that must be in range. -/
def expect (value : Option α) : Except (Failure ε) α :=
  match value with
  | some a => .ok a
  | none => .error .panic

/-- `xs[start..]`. -/
def sliceFrom (xs : List α) (start : ℕ) : Except (Failure ε) (List α) :=
  if start ≤ xs.length then .ok (xs.drop start) else .error .panic

/-- `option.ok_or(e)`. -/
def okOr (value : Option α) (e : ε) : Except ε α :=
  match value with
  | some a => .ok a
  | none => .error e

/-- `if c { return Err(e) }`. -/
def rejectIf (c : Prop) [Decidable c] (e : ε) : Except ε Unit :=
  if c then .error e else .ok ()

/-- `for x in xs { check(x)? }`. -/
def forEach (check : α → Except ε Unit) : List α → Except ε Unit
  | [] => .ok ()
  | x :: xs => do
    check x
    forEach check xs

@[simp] theorem rejectIf_eq_ok (c : Prop) [Decidable c] (e : ε) (u : Unit) :
    rejectIf c e = .ok u ↔ ¬c := by
  by_cases h : c <;> simp [rejectIf, h]

@[simp] theorem bind_eq_ok (x : Except ε α) (f : α → Except ε β) (b : β) :
    (x >>= f) = .ok b ↔ ∃ a, x = .ok a ∧ f a = .ok b := by
  cases x with
  | error e => simp [bind, Except.bind]
  | ok a => simp [bind, Except.bind]

theorem bind_of_ok {x : Except ε α} {a : α} (h : x = .ok a) (f : α → Except ε β) :
    (x >>= f) = f a := by
  rw [h]
  rfl

@[simp] theorem expect_eq_ok (value : Option α) (a : α) :
    (expect value : Except (Failure ε) α) = .ok a ↔ value = some a := by
  cases value <;> simp [expect]

@[simp] theorem sliceFrom_eq_ok (xs ys : List α) (start : ℕ) :
    (sliceFrom xs start : Except (Failure ε) (List α)) = .ok ys ↔
      start ≤ xs.length ∧ xs.drop start = ys := by
  by_cases h : start ≤ xs.length <;> simp [sliceFrom, h]

@[simp] theorem okOr_eq_ok (value : Option α) (e : ε) (a : α) :
    okOr value e = .ok a ↔ value = some a := by
  cases value <;> simp [okOr]

@[simp] theorem mapError_eq_ok {ε' : Type} (f : ε → ε') (x : Except ε α) (a : α) :
    x.mapError f = .ok a ↔ x = .ok a := by
  cases x <;> simp [Except.mapError]

/-- The value of a check is `()`: nothing of it reaches the rest. -/
theorem exists_unit (p : Unit → Prop) : (∃ u, p u) ↔ p () :=
  ⟨fun ⟨_, h⟩ => h, fun h => ⟨(), h⟩⟩

@[simp] theorem forEach_eq_ok (check : α → Except ε Unit) (xs : List α) (u : Unit) :
    forEach check xs = .ok u ↔ ∀ x ∈ xs, check x = .ok () := by
  induction xs with
  | nil => simp [forEach]
  | cons x xs ih =>
    simp only [forEach, bind_eq_ok, exists_unit, ih, List.forall_mem_cons]

@[simp] theorem foldlM_cons_eq_ok (step : β → α → Except ε β) (b b' : β) (x : α) (xs : List α) :
    (x :: xs).foldlM step b = .ok b' ↔ ∃ c, step b x = .ok c ∧ xs.foldlM step c = .ok b' := by
  rw [List.foldlM_cons, bind_eq_ok]

theorem mapM_eq_ok (f : α → Except ε β) (xs : List α) (ys : List β) :
    xs.mapM f = .ok ys ↔ List.Forall₂ (fun x y => f x = .ok y) xs ys := by
  induction xs generalizing ys with
  | nil =>
    rw [List.mapM_nil]
    constructor
    · intro h
      rw [← Except.ok.inj h]
      exact List.Forall₂.nil
    · intro h
      cases h
      rfl
  | cons x xs ih =>
    rw [List.mapM_cons]
    simp only [bind_eq_ok, ih, pure, Except.pure, Except.ok.injEq]
    constructor
    · rintro ⟨y, hy, zs, hzs, rfl⟩
      exact List.Forall₂.cons hy hzs
    · rintro (_ | ⟨hy, hzs⟩)
      exact ⟨_, hy, _, hzs, rfl⟩

theorem forall₂_left {R : α → β → Prop} {xs : List α} {ys : List β} (h : List.Forall₂ R xs ys) :
    ∀ x ∈ xs, ∃ y ∈ ys, R x y := by
  induction h with
  | nil => exact fun x hx => absurd hx List.not_mem_nil
  | cons hfirst _ ih =>
    intro x hx
    rcases List.mem_cons.mp hx with rfl | hx
    · exact ⟨_, List.mem_cons_self, hfirst⟩
    · obtain ⟨y, hy, hR⟩ := ih x hx
      exact ⟨y, List.mem_cons_of_mem _ hy, hR⟩

/-- Two checks of a list that agree element by element. -/
theorem mapM_factor (f : α → Except ε β) (g : α → Except ε γ) (h : β → δ) (k : γ → δ)
    (Q : γ → Prop) (hfg : ∀ x y, f x = .ok y → ∃ p, g x = .ok p ∧ h y = k p ∧ Q p)
    (xs : List α) {ys : List β} (hrun : xs.mapM f = .ok ys) :
    ∃ ps, xs.mapM g = .ok ps ∧ ys.map h = ps.map k ∧ ∀ p ∈ ps, Q p := by
  induction xs generalizing ys with
  | nil =>
    rw [List.mapM_nil] at hrun
    obtain rfl := Except.ok.inj hrun
    exact ⟨[], rfl, rfl, fun _ hm => absurd hm List.not_mem_nil⟩
  | cons x xs ih =>
    rw [List.mapM_cons, bind_eq_ok] at hrun
    obtain ⟨y, hy, hrun⟩ := hrun
    rw [bind_eq_ok] at hrun
    obtain ⟨zs, hzs, hrun⟩ := hrun
    obtain rfl := Except.ok.inj hrun
    obtain ⟨p, hp, heq, hq⟩ := hfg x y hy
    obtain ⟨ps, hps, hmap, hall⟩ := ih hzs
    refine ⟨p :: ps, ?_, ?_, ?_⟩
    · rw [List.mapM_cons, bind_eq_ok]
      refine ⟨p, hp, ?_⟩
      rw [bind_eq_ok]
      exact ⟨ps, hps, rfl⟩
    · rw [List.map_cons, List.map_cons, heq, hmap]
    · intro q hm
      rcases List.mem_cons.mp hm with rfl | hm
      · exact hq
      · exact hall q hm

/-! ### Where a sequence of checks fails -/

theorem bind_eq_error (x : Except ε α) (f : α → Except ε β) (e : ε) :
    (x >>= f) = .error e ↔ x = .error e ∨ ∃ a, x = .ok a ∧ f a = .error e := by
  cases x with
  | error e' => simp [bind, Except.bind]
  | ok a => simp [bind, Except.bind]

theorem rejectIf_eq_error (c : Prop) [Decidable c] (e e' : ε) (h : rejectIf c e = .error e') :
    c ∧ e' = e := by
  by_cases hc : c
  · rw [rejectIf, if_pos hc] at h
    exact ⟨hc, (Except.error.inj h).symm⟩
  · rw [rejectIf, if_neg hc] at h
    cases h

theorem forEach_error (check : α → Except ε Unit) (xs : List α) (e : ε)
    (h : forEach check xs = .error e) : ∃ x ∈ xs, check x = .error e := by
  induction xs with
  | nil => cases h
  | cons x xs ih =>
    rw [forEach, bind_eq_error] at h
    rcases h with h | ⟨-, -, h⟩
    · exact ⟨x, List.mem_cons_self, h⟩
    · obtain ⟨y, hm, hy⟩ := ih h
      exact ⟨y, List.mem_cons_of_mem x hm, hy⟩

theorem foldlM_error (step : β → α → Except ε β) (xs : List α) (b : β) (e : ε)
    (h : xs.foldlM step b = .error e) : ∃ c, ∃ x ∈ xs, step c x = .error e := by
  induction xs generalizing b with
  | nil => cases h
  | cons x xs ih =>
    rw [List.foldlM_cons, bind_eq_error] at h
    rcases h with h | ⟨c, -, h⟩
    · exact ⟨b, x, List.mem_cons_self, h⟩
    · obtain ⟨d, y, hm, hy⟩ := ih c h
      exact ⟨d, y, List.mem_cons_of_mem x hm, hy⟩

/-- A check that fails with a `fault` when `p` holds, and passes otherwise. -/
def Decides (check : Except ε Unit) (fault : ε → Prop) (p : Prop) : Prop :=
  ((∃ e, check = .error e ∧ fault e) ↔ p) ∧ (check = .ok () ↔ ¬p)

theorem decides_of_ok {check : Except ε Unit} {fault : ε → Prop} {p : Prop}
    (hok : check = .ok () ↔ ¬p) (herror : ∀ e, check = .error e → fault e) :
    Decides check fault p := by
  refine ⟨?_, hok⟩
  constructor
  · rintro ⟨e, he, -⟩
    by_contra hp
    rw [hok.mpr hp] at he
    cases he
  · intro hp
    cases hcheck : check with
    | error e => exact ⟨e, rfl, herror e hcheck⟩
    | ok u => exact absurd hp (hok.mp hcheck)

/-! ### Checks that do not panic -/

def NoPanic (x : Except (Failure ε) α) : Prop := x ≠ .error .panic

theorem noPanic_ok (a : α) : NoPanic (.ok a : Except (Failure ε) α) := by
  intro h
  cases h

theorem noPanic_error (e : ε) : NoPanic (.error (.error e) : Except (Failure ε) α) := by
  intro h
  cases h

theorem noPanic_bind (x : Except (Failure ε) α) (f : α → Except (Failure ε) β) (hx : NoPanic x)
    (hf : ∀ a, x = .ok a → NoPanic (f a)) : NoPanic (x >>= f) := by
  cases x with
  | error e =>
    intro h
    exact hx (congrArg Except.error (Except.error.inj h))
  | ok a => exact hf a rfl

theorem noPanic_ite {c : Prop} [Decidable c] {x y : Except (Failure ε) α} (hx : NoPanic x)
    (hy : NoPanic y) : NoPanic (if c then x else y) := by
  by_cases h : c
  · rw [if_pos h]
    exact hx
  · rw [if_neg h]
    exact hy

theorem noPanic_rejectIf (c : Prop) [Decidable c] (e : ε) :
    NoPanic (rejectIf c (.error e) : Except (Failure ε) Unit) :=
  noPanic_ite (noPanic_error e) (noPanic_ok ())

theorem noPanic_okOr (value : Option α) (e : ε) : NoPanic (okOr value (Failure.error e)) := by
  cases value with
  | none => exact noPanic_error e
  | some a => exact noPanic_ok a

theorem noPanic_expect {value : Option α} (h : value.isSome) :
    NoPanic (expect value : Except (Failure ε) α) := by
  cases value with
  | none => cases h
  | some a => exact noPanic_ok a

theorem noPanic_mapError (x : Except ε α) : NoPanic (x.mapError Failure.error) := by
  cases x with
  | error e => exact noPanic_error e
  | ok a => exact noPanic_ok a

theorem noPanic_forEach (check : α → Except (Failure ε) Unit) (xs : List α)
    (h : ∀ x, NoPanic (check x)) : NoPanic (forEach check xs) := by
  induction xs with
  | nil => exact noPanic_ok ()
  | cons x xs ih => exact noPanic_bind _ _ (h x) fun _ _ => ih

/-! ### The only match of a scan -/

/-- One round of a scan for the only `x` with `p x`: a second one is an error. -/
def takeOnly (p : α → Bool) (read : α → Except ε β) (again : α → ε) (found : Option β) (x : α) :
    Except ε (Option β) :=
  if p x = true then do
    rejectIf (found.isSome) (again x)
    let value ← read x
    .ok (some value)
  else .ok found

variable {p : α → Bool} {read : α → Except ε β} {again : α → ε}

theorem foldlM_takeOnly_skip {x : α} (hx : ¬p x = true) (found : Option β) (xs : List α) :
    (x :: xs).foldlM (takeOnly p read again) found = xs.foldlM (takeOnly p read again) found := by
  rw [List.foldlM_cons, takeOnly, if_neg hx]
  rfl

/-- Behind a match the scan only looks for a second one. -/
theorem foldlM_takeOnly_some (value : β) (xs : List α) (found : Option β) :
    xs.foldlM (takeOnly p read again) (some value) = .ok found ↔
      xs.filter p = [] ∧ found = some value := by
  induction xs with
  | nil =>
    rw [List.foldlM_nil, List.filter_nil]
    constructor
    · intro h
      exact ⟨rfl, (Except.ok.inj h).symm⟩
    · intro h
      rw [h.2]
      rfl
  | cons x xs ih =>
    by_cases hx : p x = true
    · rw [foldlM_cons_eq_ok, List.filter_cons_of_pos hx]
      constructor
      · rintro ⟨next, hstep, -⟩
        rw [takeOnly, if_pos hx] at hstep
        cases hstep
      · intro h
        cases h.1
    · rw [List.filter_cons_of_neg hx, foldlM_takeOnly_skip hx, ih]

theorem foldlM_takeOnly (xs : List α) (value : β) :
    xs.foldlM (takeOnly p read again) none = .ok (some value) ↔
      ∃ x, xs.filter p = [x] ∧ read x = .ok value := by
  induction xs with
  | nil =>
    rw [List.foldlM_nil, List.filter_nil]
    constructor
    · intro h
      cases Except.ok.inj h
    · rintro ⟨x, hx, -⟩
      cases hx
  | cons x xs ih =>
    by_cases hx : p x = true
    · rw [foldlM_cons_eq_ok, List.filter_cons_of_pos hx]
      constructor
      · rintro ⟨next, hstep, hrest⟩
        rw [takeOnly, if_pos hx] at hstep
        obtain ⟨-, -, hstep⟩ := (bind_eq_ok _ _ _).mp hstep
        obtain ⟨first, hread, hstep⟩ := (bind_eq_ok _ _ _).mp hstep
        obtain rfl := Except.ok.inj hstep
        obtain ⟨hnone, hsame⟩ := (foldlM_takeOnly_some first xs _).mp hrest
        rw [hnone, Option.some.inj hsame]
        exact ⟨x, rfl, hread⟩
      · rintro ⟨only, honly, hread⟩
        obtain ⟨rfl, hnone⟩ := List.cons.inj honly
        refine ⟨some value, ?_, (foldlM_takeOnly_some value xs _).mpr ⟨hnone, rfl⟩⟩
        rw [takeOnly, if_pos hx]
        exact (bind_eq_ok _ _ _).mpr ⟨(), rfl, (bind_eq_ok _ _ _).mpr ⟨value, hread, rfl⟩⟩
    · rw [List.filter_cons_of_neg hx, foldlM_takeOnly_skip hx, ih]

end Foundations
