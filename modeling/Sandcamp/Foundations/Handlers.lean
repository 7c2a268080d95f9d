import Sandcamp.Foundations.Actions
import Sandcamp.Foundations.Monitors

/-!
# Threads that one state answers

A handler answers the operations of a thread out of a state that nothing else changes. The run
of a thread is a course of it, and `Simulates` compares it with an action on the state, whose
values and errors may be written in another way.
-/

namespace Foundations

variable {ω : Type} {A : ω → Type} {ε ε' α β γ δ σ : Type}

/-- The answer to an operation, and the state behind it. -/
abbrev Handler (σ ω : Type) (A : ω → Type) : Type := σ → (o : ω) → A o × σ

namespace Thread

/-- The thread by itself on the state. -/
def runWith (handler : Handler σ ω A) : Thread ω A ε α → EStateM ε σ α
  | .pure a => fun s => .ok a s
  | .fail e => fun s => .error e s
  | .op o next => fun s => (next (handler s o).1).runWith handler (handler s o).2

variable {handler : Handler σ ω A}

theorem runWith_bind (t : Thread ω A ε α) (f : α → Thread ω A ε β) (s : σ) :
    (t >>= f).runWith handler s = (t.runWith handler >>= fun a => (f a).runWith handler) s := by
  induction t generalizing s with
  | pure a => rfl
  | fail e => rfl
  | op o next ih => exact ih _ _

theorem runWith_perform (o : ω) (f : A o → Thread ω A ε α) (s : σ) :
    (perform o >>= f).runWith handler s =
      (f (handler s o).1).runWith handler (handler s o).2 := rfl

/-- A thread that has come to this end. -/
def ofEnd : EStateM.Result ε σ α → Thread ω A ε α
  | .ok a _ => .pure a
  | .error e _ => .fail e

/-- A run is a course of the thread. -/
theorem course_runWith (handler : Handler σ ω A) (t : Thread ω A ε α) (s : σ) :
    ∃ history, Course t history (ofEnd (t.runWith handler s)) := by
  induction t generalizing s with
  | pure a => exact ⟨[], .nil _⟩
  | fail e => exact ⟨[], .nil _⟩
  | op o next ih =>
    obtain ⟨history, hcourse⟩ := ih (handler s o).1 (handler s o).2
    exact ⟨_, .cons hcourse⟩

end Thread

/-- The end of an action, in the words of a thread. -/
def reworded (g : ε' → ε) (f : β → α) : EStateM.Result ε' σ β → EStateM.Result ε σ α
  | .ok b s => .ok (f b) s
  | .error e s => .error (g e) s

/-- From every state the thread does what the action does. -/
def Simulates (handler : Handler σ ω A) (g : ε' → ε) (f : β → α) (t : Thread ω A ε α)
    (x : EStateM ε' σ β) : Prop :=
  ∀ s, t.runWith handler s = reworded g f (x s)

section Simulates

variable {handler : Handler σ ω A} {g : ε' → ε} {f : β → α}

theorem simulates_pure (b : β) :
    Simulates handler g f (pure (f b) : Thread ω A ε α) (pure b) := fun _ => rfl

theorem simulates_fail (e : ε') :
    Simulates handler g f (.fail (g e)) (throw e) := fun _ => rfl

theorem simulates_bind {f' : δ → γ} {t : Thread ω A ε α} {x : EStateM ε' σ β}
    {k : α → Thread ω A ε γ} {l : β → EStateM ε' σ δ} (h : Simulates handler g f t x)
    (hrest : ∀ b, Simulates handler g f' (k (f b)) (l b)) :
    Simulates handler g f' (t >>= k) (x >>= l) := by
  intro s
  rw [Thread.runWith_bind]
  show EStateM.bind _ _ s = reworded g f' (EStateM.bind x l s)
  unfold EStateM.bind
  rw [h s]
  cases x s with
  | ok b s' => exact hrest b s'
  | error e s' => rfl

/-- The thread's value, rewritten. -/
theorem simulates_map {t : Thread ω A ε α} {x : EStateM ε' σ β} (h : Simulates handler g f t x)
    (k : α → γ) : Simulates handler g (fun b => k (f b)) (t >>= fun a => pure (k a)) x := by
  intro s
  rw [Thread.runWith_bind]
  show EStateM.bind _ _ s = _
  unfold EStateM.bind
  rw [h s]
  cases x s with
  | ok b s' => rfl
  | error e s' => rfl

theorem simulates_each {body : α → Thread ω A ε Unit} {action : α → EStateM ε' σ Unit}
    (h : ∀ x, Simulates handler g id (body x) (action x)) (xs : List α) :
    Simulates handler g id (Thread.each body xs) (forEachAction action xs) := by
  induction xs with
  | nil => exact simulates_pure ()
  | cons x xs ih => exact simulates_bind (h x) fun _ => ih

end Simulates

/-- Two checks of one state, one after the other. -/
theorem reading_bind (check : σ → Except ε α) (next : α → σ → Except ε β) :
    (reading fun s => check s >>= fun a => next a s) =
      (reading check >>= fun a => reading (next a) : EStateM ε σ β) := by
  funext s
  show _ = EStateM.bind _ _ s
  simp only [EStateM.bind, reading]
  cases check s with
  | ok a => rfl
  | error e => rfl

end Foundations
