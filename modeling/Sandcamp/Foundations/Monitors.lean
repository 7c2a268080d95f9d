import Mathlib.Data.List.Forall2
import Sandcamp.Foundations.Interleaving

/-!
# Monitors of threads

A thread is checked against what it may ask for, whatever the answers are: `Asks` says that
every operation is of one kind, `Meets` follows the thread with a monitor, whose state decides
what may be next. `meets_course` reads this off along a course of the thread by itself; in an
`Arena` threads act one at a time on what they share, and `watched_of_reaches` puts threads
that meet their monitors together.
-/

namespace Foundations

namespace Thread

variable {ω : Type} {A : ω → Type} {ε α β γ σ : Type}

/-- `for x in xs { body(x)? }`. -/
def each (body : α → Thread ω A ε Unit) : List α → Thread ω A ε Unit
  | [] => Pure.pure ()
  | x :: xs => do
    body x
    each body xs

/-- The results of `body` on a list. -/
def mapEach (body : α → Thread ω A ε β) : List α → Thread ω A ε (List β)
  | [] => Pure.pure []
  | x :: xs => do
    let y ← body x
    let ys ← mapEach body xs
    Pure.pure (y :: ys)

/-! ### Operations of one kind -/

/-- Every operation is of the kind `C`, and the thread fails with `E` or ends in `Q`. -/
def Asks (C : ω → Prop) (E : ε → Prop) : Thread ω A ε α → (α → Prop) → Prop
  | .pure a, Q => Q a
  | .fail e, _ => E e
  | .op o next, Q => C o ∧ ∀ answer, (next answer).Asks C E Q

variable {C C' : ω → Prop} {E E' : ε → Prop} {Q Q' : α → Prop}

theorem asks_pure (a : α) (h : Q a) : Asks C E (Pure.pure a : Thread ω A ε α) Q := h

theorem asks_perform (o : ω) (h : C o) :
    Asks C E (Thread.perform o : Thread ω A ε (A o)) fun _ => True :=
  ⟨h, fun _ => trivial⟩

theorem asks_mono {t : Thread ω A ε α} (ht : Asks C E t Q) (hC : ∀ o, C o → C' o)
    (hE : ∀ e, E e → E' e) (hQ : ∀ a, Q a → Q' a) : Asks C' E' t Q' := by
  induction t with
  | pure a => exact hQ a ht
  | fail e => exact hE e ht
  | op o next ih => exact ⟨hC o ht.1, fun answer => ih answer (ht.2 answer)⟩

theorem asks_post {t : Thread ω A ε α} (ht : Asks C E t Q) (hQ : ∀ a, Q a → Q' a) :
    Asks C E t Q' :=
  asks_mono ht (fun _ h => h) (fun _ h => h) hQ

theorem asks_bind {R : β → Prop} {t : Thread ω A ε α} {f : α → Thread ω A ε β}
    (ht : Asks C E t Q) (hf : ∀ a, Q a → Asks C E (f a) R) : Asks C E (t >>= f) R := by
  induction t with
  | pure a => exact hf a ht
  | fail e => exact ht
  | op o next ih => exact ⟨ht.1, fun answer => ih answer (ht.2 answer)⟩

theorem asks_each {body : α → Thread ω A ε Unit} {xs : List α}
    (h : ∀ x ∈ xs, Asks C E (body x) fun _ => True) : Asks C E (each body xs) fun _ => True := by
  induction xs with
  | nil => trivial
  | cons x xs ih =>
    exact asks_bind (h x List.mem_cons_self) fun _ _ =>
      ih fun y hy => h y (List.mem_cons_of_mem _ hy)

theorem asks_mapEach {body : α → Thread ω A ε β} {R : α → β → Prop} {xs : List α}
    (h : ∀ x ∈ xs, Asks C E (body x) (R x)) :
    Asks C E (mapEach body xs) (List.Forall₂ R xs) := by
  induction xs with
  | nil => exact .nil
  | cons x xs ih =>
    refine asks_bind (h x List.mem_cons_self) fun y hy => ?_
    refine asks_bind (ih fun z hz => h z (List.mem_cons_of_mem _ hz)) fun ys hys => ?_
    exact .cons hy hys

/-! ### Monitors -/

end Thread

/-- What may be next, and what becomes of the monitor's state. -/
structure Monitor (σ ω : Type) (A : ω → Type) where
  allowed : σ → ω → Prop
  after : σ → (o : ω) → A o → σ

namespace Thread

variable {ω : Type} {A : ω → Type} {ε α β γ σ : Type} {monitor : Monitor σ ω A}

/-- From this state of the monitor every operation is allowed, and the thread ends in `Q`. -/
def Meets (monitor : Monitor σ ω A) : Thread ω A ε α → σ → (α → σ → Prop) → Prop
  | .pure a, s, Q => Q a s
  | .fail _, _, _ => True
  | .op o next, s, Q => monitor.allowed s o ∧
      ∀ answer, (next answer).Meets monitor (monitor.after s o answer) Q

variable {s : σ} {Q Q' : α → σ → Prop}

theorem meets_perform (o : ω) (h : monitor.allowed s o) :
    Meets monitor (Thread.perform o : Thread ω A ε (A o)) s fun answer s' =>
      s' = monitor.after s o answer :=
  ⟨h, fun _ => rfl⟩

/-- One operation, and what becomes of the thread with each answer. -/
theorem meets_ask {o : ω} {f : A o → Thread ω A ε α} (h : monitor.allowed s o)
    (hf : ∀ answer, Meets monitor (f answer) (monitor.after s o answer) Q) :
    Meets monitor (Thread.perform o >>= f) s Q :=
  ⟨h, hf⟩

theorem meets_post {t : Thread ω A ε α} (ht : Meets monitor t s Q)
    (hQ : ∀ a s', Q a s' → Q' a s') : Meets monitor t s Q' := by
  induction t generalizing s with
  | pure a => exact hQ a s ht
  | fail e => trivial
  | op o next ih => exact ⟨ht.1, fun answer => ih answer (ht.2 answer)⟩

theorem meets_bind {R : β → σ → Prop} {t : Thread ω A ε α} {f : α → Thread ω A ε β}
    (ht : Meets monitor t s Q) (hf : ∀ a s', Q a s' → Meets monitor (f a) s' R) :
    Meets monitor (t >>= f) s R := by
  induction t generalizing s with
  | pure a => exact hf a s ht
  | fail e => trivial
  | op o next ih => exact ⟨ht.1, fun answer => ih answer (ht.2 answer)⟩

/-- Operations that the monitor allows and takes no notice of. -/
theorem meets_of_asks {C : ω → Prop} {E : ε → Prop} {P : α → Prop} {t : Thread ω A ε α}
    (ht : Asks C E t P)
    (hC : ∀ o, C o → monitor.allowed s o ∧ ∀ answer, monitor.after s o answer = s) :
    Meets monitor t s fun a s' => s' = s ∧ P a := by
  induction t with
  | pure a => exact ⟨rfl, ht⟩
  | fail e => trivial
  | op o next ih =>
    obtain ⟨hallowed, hafter⟩ := hC o ht.1
    refine ⟨hallowed, fun answer => ?_⟩
    rw [hafter answer]
    exact ih answer (ht.2 answer)

/-- The results, each with what was known of it when it came, where nothing known is lost. -/
theorem meets_mapEach {le : σ → σ → Prop} {R : σ → α → β → Prop} (hrefl : ∀ s, le s s)
    (htrans : ∀ s₁ s₂ s₃, le s₁ s₂ → le s₂ s₃ → le s₁ s₃)
    (hmono : ∀ s₁ s₂ x y, le s₁ s₂ → R s₁ x y → R s₂ x y) {body : α → Thread ω A ε β}
    {xs : List α} (h : ∀ x ∈ xs, ∀ s', le s s' →
      Meets monitor (body x) s' fun y s'' => le s' s'' ∧ R s'' x y) :
    Meets monitor (mapEach body xs) s fun ys s' => le s s' ∧ List.Forall₂ (R s') xs ys := by
  induction xs generalizing s with
  | nil => exact ⟨hrefl s, .nil⟩
  | cons x xs ih =>
    refine meets_bind (h x List.mem_cons_self s (hrefl s)) fun y s₁ hy => ?_
    refine meets_bind (ih fun z hz s' hs' => h z (List.mem_cons_of_mem _ hz) s'
      (htrans s s₁ s' hy.1 hs')) fun ys s₂ hys => ?_
    exact ⟨htrans s s₁ s₂ hy.1 hys.1, .cons (hmono s₁ s₂ x y hys.1 hy.2) hys.2⟩

/-! ### Courses of one thread -/

/-- After these operations with these answers the thread goes on as the last one. -/
inductive Course : Thread ω A ε α → List (Σ o, A o) → Thread ω A ε α → Prop
  | nil (t : Thread ω A ε α) : Course t [] t
  | cons {o : ω} {next : A o → Thread ω A ε α} {answer : A o} {history : List (Σ o, A o)}
      {t : Thread ω A ε α} : Course (next answer) history t →
      Course (.op o next) (⟨o, answer⟩ :: history) t

/-- The operation that the thread asks for. -/
def asked : Thread ω A ε α → Option ω
  | .op o _ => some o
  | _ => none

theorem eq_op_of_asked {t : Thread ω A ε α} {o : ω} (h : t.asked = some o) :
    ∃ next, t = .op o next := by
  cases t with
  | pure a => cases h
  | fail e => cases h
  | op o' next =>
    obtain rfl := Option.some.inj h
    exact ⟨next, rfl⟩

/-- What the thread has come to. -/
def returned : Thread ω A ε α → Option α
  | .pure a => some a
  | _ => none

theorem eq_pure_of_returned {t : Thread ω A ε α} {a : α} (h : t.returned = some a) :
    t = .pure a := by
  cases t with
  | pure a' =>
    cases h
    rfl
  | fail e => cases h
  | op o next => cases h

/-- A course in which the same is always answered to the same. -/
def play (answers : (o : ω) → A o) : ℕ → Thread ω A ε α → List (Σ o, A o) × Thread ω A ε α
  | n + 1, .op o next =>
    let (history, t) := play answers n (next (answers o))
    (⟨o, answers o⟩ :: history, t)
  | _, t => ([], t)

theorem course_play (answers : (o : ω) → A o) (n : ℕ) (t : Thread ω A ε α) :
    Course t (play answers n t).1 (play answers n t).2 := by
  induction n generalizing t with
  | zero => exact .nil t
  | succ n ih =>
    cases t with
    | pure a => exact .nil _
    | fail e => exact .nil _
    | op o next => exact .cons (ih _)

end Thread

/-- The monitor's state after a course. -/
def Monitor.along {ω : Type} {A : ω → Type} {σ : Type} (monitor : Monitor σ ω A) (s : σ)
    (history : List (Σ o, A o)) : σ :=
  history.foldl (fun s event => monitor.after s event.1 event.2) s

/-- Every operation of the history is allowed where it comes. -/
def Monitor.Allows {ω : Type} {A : ω → Type} {σ : Type} (monitor : Monitor σ ω A) :
    σ → List (Σ o, A o) → Prop
  | _, [] => True
  | s, event :: rest => monitor.allowed s event.1 ∧
      monitor.Allows (monitor.after s event.1 event.2) rest

theorem Monitor.allows_append {ω : Type} {A : ω → Type} {σ : Type} {monitor : Monitor σ ω A}
    {s : σ} {first rest : List (Σ o, A o)} : monitor.Allows s (first ++ rest) ↔
      monitor.Allows s first ∧ monitor.Allows (monitor.along s first) rest := by
  induction first generalizing s with
  | nil => simp [Monitor.Allows, Monitor.along]
  | cons event first ih => exact (and_congr_right fun _ => ih).trans and_assoc.symm

theorem Thread.allows_course {ω : Type} {A : ω → Type} {ε α σ : Type} {monitor : Monitor σ ω A}
    {s : σ} {Q : α → σ → Prop} {t t' : Thread ω A ε α} {history : List (Σ o, A o)}
    (h : Meets monitor t s Q) (hcourse : Course t history t') : monitor.Allows s history := by
  induction hcourse generalizing s with
  | nil t => trivial
  | cons _ ih => exact ⟨h.1, ih (h.2 _)⟩

theorem Thread.meets_course {ω : Type} {A : ω → Type} {ε α σ : Type} {monitor : Monitor σ ω A}
    {s : σ} {Q : α → σ → Prop} {t t' : Thread ω A ε α} {history : List (Σ o, A o)}
    (h : Meets monitor t s Q) (hcourse : Course t history t') :
    Meets monitor t' (monitor.along s history) Q := by
  induction hcourse generalizing s with
  | nil t => exact h
  | cons _ ih => exact ih (h.2 _)

/-- A monitor that knows everything that has happened. -/
def Monitor.chronicle {ω : Type} {A : ω → Type} (allowed : List (Σ o, A o) → ω → Prop) :
    Monitor (List (Σ o, A o)) ω A :=
  ⟨allowed, fun history o answer => history ++ [⟨o, answer⟩]⟩

section Chronicle

variable {ω : Type} {A : ω → Type} {ε α : Type} {allowed : List (Σ o, A o) → ω → Prop}

theorem Monitor.along_chronicle (history more : List (Σ o, A o)) :
    (Monitor.chronicle allowed).along history more = history ++ more := by
  induction more generalizing history with
  | nil => exact (List.append_nil history).symm
  | cons event more ih =>
    refine (ih (history ++ [event])).trans ?_
    rw [List.append_assoc, List.singleton_append]

theorem Thread.meets_chronicle {C : ω → Prop} {E : ε → Prop} {Q : α → Prop} {t : Thread ω A ε α}
    {history : List (Σ o, A o)} (ht : Asks C E t Q)
    (hC : ∀ more, (∀ event ∈ more, C event.1) → ∀ o, C o → allowed (history ++ more) o) :
    Meets (Monitor.chronicle allowed) t history fun a history' => Q a ∧
      ∃ more, history' = history ++ more ∧ ∀ event ∈ more, C event.1 := by
  induction t generalizing history with
  | pure a => exact ⟨ht, [], (List.append_nil history).symm, by simp⟩
  | fail e => trivial
  | op o next ih =>
    have hfirst := hC [] (by simp) o ht.1
    rw [List.append_nil] at hfirst
    refine ⟨hfirst, fun answer => ?_⟩
    have hlater : ∀ more, (∀ event ∈ more, C event.1) → ∀ o', C o' →
        allowed (history ++ [⟨o, answer⟩] ++ more) o' := by
      intro more hmore o' ho'
      rw [List.append_assoc]
      refine hC _ (fun event hevent => ?_) o' ho'
      rcases List.mem_cons.mp hevent with rfl | hevent
      · exact ht.1
      · exact hmore event hevent
    refine meets_post (ih answer (ht.2 answer) hlater) ?_
    rintro a history' ⟨ha, more, rfl, hmore⟩
    refine ⟨ha, ⟨o, answer⟩ :: more, List.append_assoc history [⟨o, answer⟩] more, ?_⟩
    intro event hevent
    rcases List.mem_cons.mp hevent with rfl | hevent
    · exact ht.1
    · exact hmore event hevent

end Chronicle

/-- What a thread may still ask for, and how it may still end. -/
theorem Thread.asks_course {ω : Type} {A : ω → Type} {ε α : Type} {C : ω → Prop} {E : ε → Prop}
    {Q : α → Prop} {t t' : Thread ω A ε α} {history : List (Σ o, A o)} (h : Asks C E t Q)
    (hcourse : Course t history t') : Asks C E t' Q := by
  induction hcourse with
  | nil t => exact h
  | cons _ ih => exact ih (h.2 _)

/-! ### Threads side by side -/

/-- What an operation with this answer, and the end of a thread, may make of the shared state. -/
structure Arena (ι σ ω : Type) (A : ω → Type) where
  effect : ι → σ → (o : ω) → A o → σ → Prop
  leave : ι → σ → σ → Prop

namespace Arena
open Machine (threads_of_update)

variable {ι σ φ ω ε α : Type} {A : ω → Type} [DecidableEq ι]

/-- One thread acts, or is ended wherever it is. -/
inductive Step (arena : Arena ι σ ω A) (who : ι) :
    Option (Σ o, A o) → System ι σ ω A ε α → System ι σ ω A ε α → Prop
  | act {system : System ι σ ω A ε α} {o : ω} {next : A o → Thread ω A ε α} {answer : A o}
      {shared : σ} : system.threads who = some (.op o next) →
      arena.effect who system.shared o answer shared →
      Step arena who (some ⟨o, answer⟩) system
        ⟨shared, Function.update system.threads who (some (next answer))⟩
  | leave {system : System ι σ ω A ε α} {t : Thread ω A ε α} {shared : σ} :
      system.threads who = some t → arena.leave who system.shared shared →
      Step arena who none system ⟨shared, Function.update system.threads who none⟩

/-- In whatever order the threads act; the trace says who did what, `none` being the end. -/
inductive Reaches (arena : Arena ι σ ω A) (system : System ι σ ω A ε α) :
    List (ι × Option (Σ o, A o)) → System ι σ ω A ε α → Prop
  | refl : Reaches arena system [] system
  | step {who : ι} {trace : List (ι × Option (Σ o, A o))} {event : Option (Σ o, A o)}
      {middle last : System ι σ ω A ε α} : Reaches arena system trace middle →
      Step arena who event middle last → Reaches arena system (trace ++ [(who, event)]) last

/-- A monitor for every thread, and what holds of their states together with what is shared. -/
structure Watch (arena : Arena ι σ ω A) (φ : Type) where
  monitor : ι → Monitor φ ω A
  inv : (ι → φ) → σ → Prop
  /-- The state of a monitor whose thread has ended. -/
  gone : φ
  act : ∀ (p : ι → φ) (who : ι) (s s' : σ) (o : ω) (answer : A o), inv p s →
    (monitor who).allowed (p who) o → arena.effect who s o answer s' →
    inv (Function.update p who ((monitor who).after (p who) o answer)) s'
  leave : ∀ (p : ι → φ) (who : ι) (s s' : σ), inv p s → arena.leave who s s' →
    inv (Function.update p who gone) s'

variable {arena : Arena ι σ ω A}

/-- The monitors' states after an event. -/
def Watch.next (watch : Watch arena φ) (p : ι → φ) (event : ι × Option (Σ o, A o)) : ι → φ :=
  Function.update p event.1 <| match event.2 with
    | some ⟨o, answer⟩ => (watch.monitor event.1).after (p event.1) o answer
    | none => watch.gone

/-- The monitors' states after a trace. -/
def Watch.along (watch : Watch arena φ) (p : ι → φ) (trace : List (ι × Option (Σ o, A o))) :
    ι → φ :=
  trace.foldl watch.next p

/-- Every thread that is left meets its monitor. -/
structure Watched (watch : Watch arena φ) (p : ι → φ) (system : System ι σ ω A ε α) : Prop where
  inv : watch.inv p system.shared
  meets : ∀ who t, system.threads who = some t →
    t.Meets (watch.monitor who) (p who) fun _ _ => True

variable {watch : Watch arena φ} {p : ι → φ} {system system' : System ι σ ω A ε α} {who : ι}
  {trace : List (ι × Option (Σ o, A o))} {event : Option (Σ o, A o)}

theorem watched_step (h : Watched watch p system) (hstep : Step arena who event system system') :
    Watched watch (watch.next p (who, event)) system' := by
  cases hstep with
  | @act _ o next answer shared hthread heffect =>
    obtain ⟨hallowed, hnext⟩ := h.meets who _ hthread
    refine ⟨watch.act p who _ _ o answer h.inv hallowed heffect, fun other t ht => ?_⟩
    by_cases hother : other = who
    · subst hother
      have hself : Function.update system.threads other (some (next answer)) other = some t := ht
      rw [Function.update_self] at hself
      obtain rfl := Option.some.inj hself
      rw [Watch.next, Function.update_self]
      exact hnext answer
    · rw [Watch.next, Function.update_of_ne hother]
      exact h.meets other t (threads_of_update system hother ht)
  | leave hthread hleave =>
    refine ⟨watch.leave p who _ _ h.inv hleave, fun other t ht => ?_⟩
    by_cases hother : other = who
    · subst hother
      simp at ht
    · rw [Watch.next, Function.update_of_ne hother]
      exact h.meets other t (threads_of_update system hother ht)

/-- Threads that each meet their monitor keep the invariant together, in whatever order they act
and wherever they end. -/
theorem watched_of_reaches (h : Watched watch p system)
    (hreaches : Reaches arena system trace system') :
    Watched watch (watch.along p trace) system' := by
  induction hreaches with
  | refl => exact h
  | step _ hstep ih =>
    rw [Watch.along, List.foldl_append]
    exact watched_step ih hstep

/-- A thread that has ended does not come back. -/
theorem threads_of_left (hreaches : Reaches arena system trace system')
    (hleft : (who, none) ∈ trace) : system'.threads who = none := by
  induction hreaches with
  | refl => cases hleft
  | @step other trace event middle last hreaches hstep ih =>
    have hnone : (who, none) ∈ trace → last.threads who = none := by
      intro hmem
      have hgone := ih hmem
      cases hstep with
      | act hthread _ =>
        have hne : who ≠ other := by
          rintro rfl
          rw [hgone] at hthread
          cases hthread
        exact (Function.update_of_ne hne _ _).trans hgone
      | leave hthread _ =>
        have hne : who ≠ other := by
          rintro rfl
          rw [hgone] at hthread
          cases hthread
        exact (Function.update_of_ne hne _ _).trans hgone
    rcases List.mem_append.mp hleft with hmem | hmem
    · exact hnone hmem
    · obtain ⟨rfl, rfl⟩ := Prod.mk.inj (List.mem_singleton.mp hmem)
      cases hstep with
      | leave _ _ => exact Function.update_self _ _ _

end Arena

end Foundations
