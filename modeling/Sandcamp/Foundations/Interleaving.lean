import Mathlib.Logic.Function.Basic

/-!
# Threads that share a state

A thread is a program of atomic operations. A system runs any number of threads
on one shared state: a move lets one thread perform its next operation, with an
answer that the move's choice settles, or ends one thread wherever it is. All
schedules of moves give all interleavings.

A `Discipline` is an invariant of the shared state, what must hold when a thread
performs an operation, and, for each thread, what the others may do while it is not
moving. `Proves` checks one thread on its own against the discipline;
`invariant_of_checked` and `guard_of_checked` put the threads together.
-/

namespace Foundations

/-- A program of operations `ω`; `A o` is the type of answers to `o`. -/
inductive Thread (ω : Type) (A : ω → Type) (ε α : Type) where
  | pure (a : α)
  | fail (e : ε)
  | op (o : ω) (next : A o → Thread ω A ε α)

namespace Thread

variable {ω : Type} {A : ω → Type} {ε α β : Type}

def bind : Thread ω A ε α → (α → Thread ω A ε β) → Thread ω A ε β
  | .pure a, f => f a
  | .fail e, _ => .fail e
  | .op o next, f => .op o fun answer => (next answer).bind f

instance : Monad (Thread ω A ε) where
  pure := pure
  bind := bind

/-- One operation. -/
def perform (o : ω) : Thread ω A ε (A o) := .op o fun answer => .pure answer

end Thread

/-- How operations and the end of a thread change the shared state `σ`; `ι` names the
threads and `χ` settles an answer. -/
structure Machine (ι χ σ ω : Type) (A : ω → Type) where
  perform : ι → (o : ω) → χ → σ → A o × σ
  finish : ι → σ → σ

inductive Move (ι χ : Type) where
  | act (who : ι) (choice : χ)
  | finish (who : ι)

structure System (ι σ ω : Type) (A : ω → Type) (ε α : Type) where
  shared : σ
  /-- `none` once the thread is gone. -/
  threads : ι → Option (Thread ω A ε α)

namespace Machine

variable {ι χ σ ω ε α β : Type} {A : ω → Type}

/-- A thread that has failed is gone with its next move, one that has nothing left to
do stays until it is ended. -/
def step [DecidableEq ι] (machine : Machine ι χ σ ω A) (system : System ι σ ω A ε α) :
    Move ι χ → System ι σ ω A ε α
  | .act who choice =>
    match system.threads who with
    | some (.op o next) =>
      let (answer, shared) := machine.perform who o choice system.shared
      ⟨shared, Function.update system.threads who (some (next answer))⟩
    | some (.fail _) =>
      ⟨machine.finish who system.shared, Function.update system.threads who none⟩
    | some (.pure _) | none => system
  | .finish who =>
    if (system.threads who).isSome then
      ⟨machine.finish who system.shared, Function.update system.threads who none⟩
    else system

def run [DecidableEq ι] (machine : Machine ι χ σ ω A) (system : System ι σ ω A ε α)
    (moves : List (Move ι χ)) : System ι σ ω A ε α :=
  moves.foldl machine.step system

/-- `rely who s s'`: from `s` to `s'` nothing was done to `who`; `guard who o s`: in `s`
the operation `o` may be next for `who`. -/
structure Discipline (machine : Machine ι χ σ ω A) where
  inv : σ → Prop
  guard : ι → ω → σ → Prop
  rely : ι → σ → σ → Prop
  finish_inv : ∀ who s, inv s → inv (machine.finish who s)
  finish_rely : ∀ who other s, other ≠ who → inv s → rely other s (machine.finish who s)

variable {machine : Machine ι χ σ ω A} (discipline : Discipline machine)

/-- The assertion survives what the others may do. -/
def Stable (who : ι) (P : σ → Prop) : Prop :=
  ∀ s s', P s → discipline.rely who s s' → P s'

/-- A step of `who` from `s` to `s'` is allowed. -/
structure Allowed (who : ι) (s s' : σ) : Prop where
  inv : discipline.inv s'
  rely : ∀ other, other ≠ who → discipline.rely other s s'

/-- From `P`, every operation of the thread is allowed, and it ends in `Q`. -/
def Proves (who : ι) (P : σ → Prop) : Thread ω A ε α → (α → σ → Prop) → Prop
  | .pure a, Q => ∀ s, discipline.inv s → P s → Q a s
  | .fail _, _ => True
  | .op o next, Q => ∃ R : A o → σ → Prop,
    (∀ answer, Stable discipline who (R answer)) ∧
    (∀ s, discipline.inv s → P s → discipline.guard who o s) ∧
    (∀ choice s, discipline.inv s → P s →
      Allowed discipline who s (machine.perform who o choice s).2 ∧
        R (machine.perform who o choice s).1 (machine.perform who o choice s).2) ∧
    ∀ answer, Proves who (R answer) (next answer) Q

variable {discipline} {who : ι} {P P' : σ → Prop} {Q : α → σ → Prop}

theorem proves_pure (a : α) (h : ∀ s, P s → Q a s) :
    Proves discipline who P (Pure.pure a : Thread ω A ε α) Q :=
  fun s _ hp => h s hp

theorem proves_pre (t : Thread ω A ε α) (ht : Proves discipline who P' t Q)
    (h : ∀ s, discipline.inv s → P s → P' s) : Proves discipline who P t Q := by
  cases t with
  | pure a => exact fun s hi hp => ht s hi (h s hi hp)
  | fail e => trivial
  | op o next =>
    obtain ⟨R, hstable, hguard, hstep, hnext⟩ := ht
    exact ⟨R, hstable, fun s hi hp => hguard s hi (h s hi hp),
      fun choice s hi hp => hstep choice s hi (h s hi hp), hnext⟩

theorem proves_post {Q' : α → σ → Prop} (t : Thread ω A ε α)
    (ht : Proves discipline who P t Q') (h : ∀ a s, Q' a s → Q a s) :
    Proves discipline who P t Q := by
  induction t generalizing P with
  | pure a => exact fun s hi hp => h a s (ht s hi hp)
  | fail e => trivial
  | op o next ih =>
    obtain ⟨R, hstable, hguard, hstep, hnext⟩ := ht
    exact ⟨R, hstable, hguard, hstep, fun answer => ih answer (hnext answer)⟩

theorem proves_bind {R : β → σ → Prop} (t : Thread ω A ε α) (f : α → Thread ω A ε β)
    (ht : Proves discipline who P t Q) (hf : ∀ a, Proves discipline who (Q a) (f a) R) :
    Proves discipline who P (t >>= f) R := by
  induction t generalizing P with
  | pure a => exact proves_pre (f a) (hf a) fun s hi hp => ht s hi hp
  | fail e => trivial
  | op o next ih =>
    obtain ⟨S, hstable, hguard, hstep, hnext⟩ := ht
    exact ⟨S, hstable, hguard, hstep, fun answer => ih answer (hnext answer)⟩

theorem proves_false (t : Thread ω A ε α) (h : ∀ s, discipline.inv s → ¬P s) :
    Proves discipline who P t Q := by
  induction t generalizing P with
  | pure a => exact fun s hi hp => absurd hp (h s hi)
  | fail e => trivial
  | op o next ih =>
    refine ⟨fun _ _ => False, fun _ _ _ hfalse _ => hfalse, ?_, ?_, fun answer => ?_⟩
    · intro s hi hp
      exact absurd hp (h s hi)
    · intro choice s hi hp
      exact absurd hp (h s hi)
    · exact ih answer fun _ _ hfalse => hfalse

theorem proves_perform (o : ω) {R : A o → σ → Prop}
    (hstable : ∀ answer, Stable discipline who (R answer))
    (hguard : ∀ s, discipline.inv s → P s → discipline.guard who o s)
    (hstep : ∀ choice s, discipline.inv s → P s →
      Allowed discipline who s (machine.perform who o choice s).2 ∧
        R (machine.perform who o choice s).1 (machine.perform who o choice s).2) :
    Proves discipline who P (Thread.perform o : Thread ω A ε (A o)) R :=
  ⟨R, hstable, hguard, hstep, fun _ _ _ h => h⟩

/-! ### Putting the threads together -/

/-- Every thread that is left has been checked from an assertion that holds. -/
def Checked (discipline : Discipline machine) (system : System ι σ ω A ε α) : Prop :=
  discipline.inv system.shared ∧ ∀ who t, system.threads who = some t →
    ∃ (P : σ → Prop) (Q : α → σ → Prop), Stable discipline who P ∧ P system.shared ∧
      Proves discipline who P t Q

variable [DecidableEq ι]

theorem threads_of_update (system : System ι σ ω A ε α) {who other : ι}
    {left : Option (Thread ω A ε α)} {t : Thread ω A ε α} (hother : other ≠ who)
    (h : Function.update system.threads who left other = some t) :
    system.threads other = some t := by
  rwa [Function.update_of_ne hother] at h

theorem checked_finish (who : ι) (system : System ι σ ω A ε α) (h : Checked discipline system) :
    Checked discipline (⟨machine.finish who system.shared,
      Function.update system.threads who none⟩ : System ι σ ω A ε α) := by
  refine ⟨discipline.finish_inv who _ h.1, fun other t ht => ?_⟩
  by_cases hother : other = who
  · subst hother
    simp at ht
  · obtain ⟨P, Q, hstable, hP, hproves⟩ := h.2 other t (threads_of_update system hother ht)
    exact ⟨P, Q, hstable, hstable _ _ hP (discipline.finish_rely who other _ hother h.1), hproves⟩

theorem checked_step (system : System ι σ ω A ε α) (move : Move ι χ)
    (h : Checked discipline system) : Checked discipline (machine.step system move) := by
  cases move with
  | finish who =>
    simp only [step]
    split
    · exact checked_finish who system h
    · exact h
  | act who choice =>
    simp only [step]
    split
    · rename_i o next hthread
      obtain ⟨P, Q, -, hP, R, hstable, -, hstep, hnext⟩ := h.2 who _ hthread
      obtain ⟨hallowed, hR⟩ := hstep choice system.shared h.1 hP
      refine ⟨hallowed.inv, fun other t ht => ?_⟩
      by_cases hother : other = who
      · subst hother
        have hself : Function.update system.threads other
            (some (next (machine.perform other o choice system.shared).1)) other = some t := ht
        rw [Function.update_self] at hself
        obtain rfl := Option.some.inj hself
        exact ⟨R _, Q, hstable _, hR, hnext _⟩
      · obtain ⟨P', Q', hstable', hP', hproves⟩ :=
          h.2 other t (threads_of_update system hother ht)
        exact ⟨P', Q', hstable', hstable' _ _ hP' (hallowed.rely other hother), hproves⟩
    · exact checked_finish who system h
    · exact h
    · exact h

theorem checked_run (system : System ι σ ω A ε α) (moves : List (Move ι χ))
    (h : Checked discipline system) : Checked discipline (machine.run system moves) := by
  induction moves generalizing system with
  | nil => exact h
  | cons move moves ih => exact ih _ (checked_step system move h)

/-- Threads that are each checked on their own keep the invariant together, whatever
the order of their operations and wherever they end. -/
theorem invariant_of_checked (system : System ι σ ω A ε α) (moves : List (Move ι χ))
    (h : Checked discipline system) : discipline.inv (machine.run system moves).shared :=
  (checked_run system moves h).1

theorem guard_of_checked (system : System ι σ ω A ε α) (moves : List (Move ι χ))
    (h : Checked discipline system) {who : ι} {o : ω} {next : A o → Thread ω A ε α}
    (hthread : (machine.run system moves).threads who = some (.op o next)) :
    discipline.guard who o (machine.run system moves).shared := by
  obtain ⟨hinv, hall⟩ := checked_run system moves h
  obtain ⟨P, Q, -, hP, R, -, hguard, -, -⟩ := hall who _ hthread
  exact hguard _ hinv hP

end Machine

end Foundations
