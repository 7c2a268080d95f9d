import Sandcamp.Campd.Itinerary

/-!
# Signals in the shutdown (runtime.rs:1028-1055)

`terminate_groups` sends the forwarded signal to every group once, and then nothing but a
`SIGKILL`, once, to a group that has not been found gone and not before the grace is over.
-/

namespace Sandcamp.Campd
open Foundations

/-- The signals sent to a group, newest first. -/
def sent (group : ℕ) (t : Trace) : List ℕ :=
  t.filterMap fun entry => match entry.action with
    | .signalled target signal => if target = group then some signal else none
    | _ => none

/-- `number` may be sent to `target` after what `terminate_groups` has done so far. -/
inductive Sends (groups : List ℕ) (signal : ℕ) (during : Trace) (clock target number : ℕ) : Prop
  | forwarded (hmem : target ∈ groups) (hnumber : number = signal)
      (hnone : sent target during = [])
  | killed (hmem : target ∈ groups) (hnumber : number = sigkill)
      (hsent : sent target during = [signal])
      (hpresent : Action.groupObserved target false ∉ acts during)
      (hgrace : ∀ entry ∈ during, entry.action = .signalled target signal →
        entry.world.kernel.clock + shutdownGrace ≤ clock)

/-- A signal that is sent while `terminate_groups` is running, is one it may send. -/
def EscalationOk (entry : Entry) (older : Trace) : Prop :=
  ∀ target number, entry.action = .signalled target number →
    ∀ during before groups signal w, older = during ++ ⟨.terminating groups signal, w⟩ :: before →
      Sends groups signal during entry.world.kernel.clock target number

def Action.terminates : Action → Bool
  | .terminating .. => true
  | _ => false

def Action.signals : Action → Bool
  | .signalled .. => true
  | _ => false

/-- `terminate_groups` has not been called. -/
def Unterminated (t : Trace) : Prop := ∀ entry ∈ t, ¬entry.action.terminates = true

variable {w w' : World} {t during : Trace} {groups : List ℕ} {signal clock : ℕ}

theorem sent_cons_signalled (group target number : ℕ) :
    sent group (⟨.signalled target number, w⟩ :: t) =
      if target = group then number :: sent group t else sent group t := by
  unfold sent
  rw [List.filterMap_cons]
  split_ifs with h
  · simp [h]
  · simp [h]

theorem sent_cons_other (group : ℕ) (entry : Entry) (h : entry.action.signals = false) :
    sent group (entry :: t) = sent group t := by
  unfold sent
  rw [List.filterMap_cons]
  cases ha : entry.action with
  | signalled target number =>
    rw [ha] at h
    cases h
  | _ => rfl

theorem escalationOk_other (entry : Entry) (h : entry.action.signals = false) :
    EscalationOk entry t := by
  intro target number he
  rw [he] at h
  cases h

theorem escalationOk_unterminated (entry : Entry) (h : Unterminated t) : EscalationOk entry t := by
  rintro target number - during before groups signal w rfl
  exact absurd rfl (h _ (List.mem_append_right _ List.mem_cons_self))

/-! ### While `terminate_groups` is running -/

/-- `F` holds of the clock and of what `terminate_groups` has done so far. -/
structure Escalating (groups : List ℕ) (signal : ℕ) (F : ℕ → Trace → Prop) (w : World)
    (t : Trace) : Prop where
  always : Always EscalationOk t
  began : ∃ number, Action.shutdownBegan number ∈ acts t
  sole : ∃ during before w₁, t = during ++ ⟨.terminating groups signal, w₁⟩ :: before ∧
    Unterminated during ∧ Unterminated before ∧ F w.kernel.clock during

/-- What holds stays true as time goes by. -/
def Timely (F : ℕ → Trace → Prop) : Prop :=
  ∀ clock later during, clock ≤ later → F clock during → F later during

variable {F G : ℕ → Trace → Prop}

/-- Wherever a run stops in its shutdown. -/
def Escalated : Program.Assertion World Entry := fun _ t =>
  Always EscalationOk t ∧ ∃ number, Action.shutdownBegan number ∈ acts t

theorem escalating_stop (w : World) (t : Trace) (h : Escalating groups signal F w t) :
    Escalated w t :=
  ⟨h.always, h.began⟩

theorem escalating_weaken (hG : ∀ clock during, F clock during → G clock during) (w : World)
    (t : Trace) (h : Escalating groups signal F w t) : Escalating groups signal G w t := by
  obtain ⟨halways, hbegan, during, before, w₁, ht, hduring, hbefore, hF⟩ := h
  exact ⟨halways, hbegan, during, before, w₁, ht, hduring, hbefore, hG _ _ hF⟩

theorem escalating_world (hF : Timely F) (h : Escalating groups signal F w t)
    (hclock : w.kernel.clock ≤ w'.kernel.clock) : Escalating groups signal F w' t := by
  obtain ⟨halways, hbegan, during, before, w₁, ht, hduring, hbefore, hF'⟩ := h
  exact ⟨halways, hbegan, during, before, w₁, ht, hduring, hbefore, hF _ _ _ hclock hF'⟩

theorem escalating_steady (hF : Timely F) :
    SteadyIn (.triples Escalated) (Escalating groups signal F) where
  turn := fun w _ events h =>
    ⟨trivial, escalating_world hF h (Kernel.clock_applyAll w.kernel events)⟩
  stop := escalating_stop

/-- A signal is sent that may be sent. -/
theorem escalating_signalled (target number : ℕ) (h : Escalating groups signal F w t)
    (hsends : ∀ during, F w.kernel.clock during →
      Sends groups signal during w.kernel.clock target number)
    (hG : ∀ during, F w.kernel.clock during →
      G w.kernel.clock (⟨.signalled target number, w⟩ :: during)) :
    Escalating groups signal G w (⟨.signalled target number, w⟩ :: t) := by
  obtain ⟨halways, ⟨began, hbegan⟩, during, before, w₁, rfl, hduring, hbefore, hF⟩ := h
  refine ⟨(always_cons _ _ _).mpr ⟨?_, halways⟩, ⟨began, mem_acts_of_mem [_] hbegan⟩,
    ⟨_, w⟩ :: during, before, w₁, rfl, ?_, hbefore, hG during hF⟩
  · intro target' number' he during' before' groups' signal' w' hsplit
    cases he
    obtain ⟨rfl, hentry, -⟩ := split_unique (fun e : Entry => e.action.terminates = true) hsplit rfl
      hduring hbefore
    cases hentry
    exact hsends during hF
  · intro e he
    rcases List.mem_cons.mp he with rfl | he
    · simp [Action.terminates]
    · exact hduring e he

theorem escalating_other (action : Action) (hsignals : action.signals = false)
    (hterminates : action.terminates = false) (h : Escalating groups signal F w t)
    (hG : ∀ during, F w.kernel.clock during → G w.kernel.clock (⟨action, w⟩ :: during)) :
    Escalating groups signal G w (⟨action, w⟩ :: t) := by
  obtain ⟨halways, ⟨began, hbegan⟩, during, before, w₁, rfl, hduring, hbefore, hF⟩ := h
  refine ⟨(always_cons _ _ _).mpr ⟨escalationOk_other _ hsignals, halways⟩,
    ⟨began, mem_acts_of_mem [_] hbegan⟩, ⟨action, w⟩ :: during, before, w₁, rfl, ?_, hbefore,
    hG during hF⟩
  intro e he
  rcases List.mem_cons.mp he with rfl | he
  · simp [hterminates]
  · exact hduring e he

/-! ### The waiting loops -/

theorem clock_waitAny (kernel : Kernel) (answer : Kernel.Answer) :
    (kernel.waitAny answer).2.clock = kernel.clock := by
  cases answer with
  | interrupted => rfl
  | failed error => rfl
  | choose n =>
    simp only [Kernel.waitAny]
    split
    · rfl
    · rfl

/-- `remaining` are groups among `base` that have not been found gone, and `K` holds. -/
def Awaited (base : List ℕ) (K : ℕ → Trace → Prop) (remaining : List ℕ) (clock : ℕ)
    (during : Trace) : Prop :=
  K clock during ∧ remaining.Nodup ∧
    ∀ group ∈ remaining, group ∈ base ∧ Action.groupObserved group false ∉ acts during

/-- Answers of `process_group_exists` may be added. -/
def Unmoved (K : ℕ → Trace → Prop) : Prop :=
  ∀ clock during w group alive, K clock during →
    K clock (⟨.groupObserved group alive, w⟩ :: during)

variable {base : List ℕ} {K : ℕ → Trace → Prop}

theorem timely_awaited (hK : Timely K) (remaining : List ℕ) : Timely (Awaited base K remaining) :=
  fun clock later during hle h => ⟨hK clock later during hle h.1, h.2⟩

/-- While the remaining groups are looked at: those of `done` that are left, and all the others. -/
def Checking (base : List ℕ) (K : ℕ → Trace → Prop) (remaining done kept : List ℕ) (clock : ℕ)
    (during : Trace) : Prop :=
  K clock during ∧ kept.Sublist done ∧ (∀ group ∈ remaining, group ∈ base) ∧
    ∀ group ∈ remaining, group ∈ kept ∨ group ∉ done →
      Action.groupObserved group false ∉ acts during

theorem checking_step {remaining done rest kept : List ℕ} {group : ℕ} {alive : Bool}
    (hK : Unmoved K) (hnodup : remaining.Nodup) (hsplit : remaining = done ++ group :: rest)
    (h : Checking base K remaining done kept clock during) :
    Checking base K remaining (done ++ [group])
      (kept ++ (if alive then some group else none).toList) clock
      (⟨.groupObserved group alive, w⟩ :: during) := by
  obtain ⟨hk, hsub, hbase, hpresent⟩ := h
  have hfresh : group ∉ done := by
    rw [hsplit] at hnodup
    exact fun hm => (List.nodup_append.mp hnodup).2.2 group hm group List.mem_cons_self rfl
  refine ⟨hK _ _ _ _ _ hk, ?_, hbase, fun other hother hwhere hm => ?_⟩
  · cases alive with
    | true => exact hsub.append (List.Sublist.refl _)
    | false =>
      rw [if_neg Bool.false_ne_true, Option.toList_none, List.append_nil]
      exact hsub.trans (List.sublist_append_left _ _)
  · rcases (mem_acts_cons _ _ _).mp hm with he | hm
    · injection he with hgroup halive
      subst hgroup
      subst halive
      rcases hwhere with hkept | hdone
      · simp only [Bool.false_eq_true, if_false, Option.toList_none, List.append_nil] at hkept
        exact hfresh (hsub.subset hkept)
      · exact hdone (List.mem_append_right _ List.mem_cons_self)
    · refine hpresent other hother ?_ hm
      rcases hwhere with hkept | hdone
      · rcases List.mem_append.mp hkept with hkept | hlast
        · exact Or.inl hkept
        · have hsame : other = group := by
            cases alive with
            | true => simpa using hlast
            | false => simp at hlast
          rw [hsame]
          exact Or.inr hfresh
      · exact Or.inr fun hd => hdone (List.mem_append_left _ hd)

theorem escalating_retainExisting (hK : Timely K) (hunmoved : Unmoved K) (remaining : List ℕ) :
    Program.Triple (Escalating groups signal (Awaited base K remaining))
      (Program.retain keepExisting remaining)
      (fun kept => Escalating groups signal (Awaited base K kept)) Escalated := by
  have htimely : ∀ done kept, Timely (Checking base K remaining done kept) :=
    fun done kept clock later during hle h => ⟨hK clock later during hle h.1, h.2⟩
  refine Program.triple_ghost _ fun w₀ t₀ hawaited => ?_
  have hnodup : remaining.Nodup := by
    obtain ⟨-, -, during, before, w₁, -, -, -, hF⟩ := hawaited
    exact hF.2.1
  refine Program.triple_conseq _ (holds_retainExisting (I := fun done kept =>
    Escalating groups signal (Checking base K remaining done kept)) remaining
    (fun done kept => escalating_steady (htimely done kept))
    fun done kept group rest hsplit w t h => ⟨trivial, escalating_other _ rfl rfl h
      fun during hF => checking_step hunmoved hnodup hsplit hF⟩) ?_ ?_
  · rintro w t ⟨rfl, rfl⟩
    refine escalating_weaken (fun clock during hF => ?_) w t hawaited
    exact ⟨hF.1, List.Sublist.refl _, fun g hg => (hF.2.2 g hg).1, fun g hg _ => (hF.2.2 g hg).2⟩
  · intro kept w t h
    refine escalating_weaken (fun clock during hF => ?_) w t h
    obtain ⟨hk, hsub, hbase, hpresent⟩ := hF
    exact ⟨hk, hnodup.sublist hsub, fun g hg =>
      ⟨hbase g (hsub.subset hg), hpresent g (hsub.subset hg) (Or.inl hg)⟩⟩

theorem escalating_awaitGroups (hK : Timely K) (hunmoved : Unmoved K) (deadline : ℕ)
    (remaining : List ℕ) :
    Program.Triple (Escalating groups signal (Awaited base K remaining))
      (awaitGroups deadline remaining)
      (fun left => Escalating groups signal fun clock during =>
        Awaited base K left clock during ∧ (left = [] ∨ deadline ≤ clock)) Escalated :=
  Program.Logic.triple (holds_awaitGroups
    (I := fun remaining => Escalating groups signal (Awaited base K remaining)) deadline remaining
    (fun remaining => escalating_steady (timely_awaited hK remaining))
    (escalating_weaken fun _ _ hF => ⟨hF, Or.inl rfl⟩)
    (fun _ _ _ hover ⟨halways, hbegan, during, before, w₁, ht, hduring, hbefore, hF⟩ =>
      ⟨halways, hbegan, during, before, w₁, ht, hduring, hbefore, hF, Or.inr hover⟩)
    (fun remaining w _ answer h => ⟨trivial, escalating_world (timely_awaited hK remaining) h
      (clock_waitAny w.kernel answer).ge⟩)
    (escalating_retainExisting hK hunmoved))

/-! ### `terminate_groups` -/

/-- The signal has been sent to the groups of `done`, by `clock`, and nothing else. -/
def Forwarded (signal : ℕ) (done : List ℕ) (clock : ℕ) (during : Trace) : Prop :=
  (∀ group, sent group during = if group ∈ done then [signal] else []) ∧
    ∀ entry ∈ during, entry.action.signals = true → entry.world.kernel.clock ≤ clock

theorem timely_forwarded (done : List ℕ) : Timely (Forwarded signal done) :=
  fun _ _ _ hle h => ⟨h.1, fun entry he hs => (h.2 entry he hs).trans hle⟩

theorem forwarded_step {done : List ℕ} {group : ℕ} (hfresh : group ∉ done)
    (h : Forwarded signal done w.kernel.clock during) :
    Forwarded signal (done ++ [group]) w.kernel.clock (⟨.signalled group signal, w⟩ :: during) := by
  refine ⟨fun other => ?_, fun entry he hs => ?_⟩
  · rw [sent_cons_signalled, h.1 other]
    by_cases hsame : group = other
    · subst hsame
      simp [hfresh]
    · simp [hsame, Ne.symm hsame]
  · rcases List.mem_cons.mp he with rfl | he
    · exact Nat.le_refl _
    · exact h.2 entry he hs

/-- No group has been looked at. -/
def Unasked (during : Trace) : Prop :=
  ∀ group alive, Action.groupObserved group alive ∉ acts during

theorem escalating_forward (hnodup : groups.Nodup) :
    Program.Triple (Escalating groups signal fun clock during =>
        Forwarded signal [] clock during ∧ Unasked during)
      (Program.each (fun group => signalGroup group signal) groups)
      (fun _ => Escalating groups signal fun clock during =>
        Forwarded signal groups clock during ∧ Unasked during) Escalated := by
  refine Program.Logic.triple (holds_signalEach (I := fun done => Escalating groups signal
    fun clock during => Forwarded signal done clock during ∧ Unasked during) signal groups
    (fun done => escalating_steady fun clock later during hle h =>
      ⟨timely_forwarded done clock later during hle h.1, h.2⟩)
    fun done group rest hsplit w t h => ⟨trivial, ?_⟩)
  have hfresh : group ∉ done := by
    rw [hsplit] at hnodup
    exact fun hm => (List.nodup_append.mp hnodup).2.2 group hm group List.mem_cons_self rfl
  have hmem : group ∈ groups := hsplit ▸ List.mem_append_right _ List.mem_cons_self
  refine escalating_signalled group signal h (fun during hF => ?_) fun during hF =>
    ⟨forwarded_step hfresh hF.1, fun g b hm => hF.2 g b (mem_acts_of_ne (by simp) hm)⟩
  refine .forwarded hmem rfl ?_
  rw [hF.1.1, if_neg hfresh]

/-- The groups of `done` have been killed; the others of `remaining` have got the signal only,
and their grace is over. -/
def Killing (groups : List ℕ) (signal : ℕ) (remaining done : List ℕ) (clock : ℕ)
    (during : Trace) : Prop :=
  ∀ group ∈ remaining, group ∈ groups ∧ Action.groupObserved group false ∉ acts during ∧
    (group ∉ done → sent group during = [signal] ∧ ∀ entry ∈ during,
      entry.action = .signalled group signal → entry.world.kernel.clock + shutdownGrace ≤ clock)

theorem timely_killing (remaining done : List ℕ) :
    Timely (Killing groups signal remaining done) :=
  fun _ _ _ hle h group hg => by
    obtain ⟨hmem, hpresent, hrest⟩ := h group hg
    exact ⟨hmem, hpresent, fun hd => ⟨(hrest hd).1, fun entry he hs =>
      ((hrest hd).2 entry he hs).trans hle⟩⟩

theorem killing_step {remaining done : List ℕ} {group : ℕ}
    (h : Killing groups signal remaining done clock during) :
    Killing groups signal remaining (done ++ [group]) clock
      (⟨.signalled group sigkill, w⟩ :: during) := by
  intro other hother
  obtain ⟨hmem, hpresent, hrest⟩ := h other hother
  refine ⟨hmem, fun hm => hpresent (mem_acts_of_ne (by simp) hm), fun hd => ?_⟩
  have hne : group ≠ other := by
    rintro rfl
    exact hd (List.mem_append_right _ List.mem_cons_self)
  obtain ⟨hsent, hgrace⟩ := hrest fun hdone => hd (List.mem_append_left _ hdone)
  refine ⟨?_, fun entry he hs => ?_⟩
  · rw [sent_cons_signalled, if_neg hne, hsent]
  · rcases List.mem_cons.mp he with rfl | he
    · injection hs with hsame
      exact absurd hsame hne
    · exact hgrace entry he hs

theorem escalating_kill {remaining : List ℕ} (hnodup : remaining.Nodup) :
    Program.Triple (Escalating groups signal (Killing groups signal remaining []))
      (Program.each (fun group => signalGroup group sigkill) remaining)
      (fun _ => Escalating groups signal (Killing groups signal remaining remaining))
      Escalated := by
  refine Program.Logic.triple (holds_signalEach (I := fun done =>
    Escalating groups signal (Killing groups signal remaining done)) sigkill remaining
    (fun done => escalating_steady (timely_killing remaining done))
    fun done group rest hsplit w t h => ⟨trivial, ?_⟩)
  have hfresh : group ∉ done := by
    rw [hsplit] at hnodup
    exact fun hm => (List.nodup_append.mp hnodup).2.2 group hm group List.mem_cons_self rfl
  have hmem : group ∈ remaining := hsplit ▸ List.mem_append_right _ List.mem_cons_self
  refine escalating_signalled group sigkill h (fun during hF => ?_) fun during hF =>
    killing_step hF
  obtain ⟨hgroup, hpresent, hrest⟩ := hF group hmem
  exact .killed hgroup rfl (hrest hfresh).1 hpresent (hrest hfresh).2

/-- When the first loop is over, the groups that remain may be killed. -/
theorem killing_of_awaited {remaining : List ℕ} {now₁ : ℕ}
    (h : Awaited groups (fun _ => Forwarded signal groups now₁) remaining clock during)
    (hover : remaining = [] ∨ now₁ + shutdownGrace ≤ clock) :
    Killing groups signal remaining [] clock during := by
  intro group hg
  obtain ⟨⟨hsent, hclock⟩, hnodup, hremaining⟩ := h
  obtain ⟨hmem, hpresent⟩ := hremaining group hg
  refine ⟨hmem, hpresent, fun _ => ⟨by rw [hsent, if_pos hmem], fun entry he hs => ?_⟩⟩
  have hby := hclock entry he (by rw [hs]; rfl)
  rcases hover with rfl | hover
  · cases hg
  · omega

/-- The groups are waited for, now that the signal has been sent to all of them. -/
theorem awaited_of_forwarded (hnodup : groups.Nodup)
    (h : Forwarded signal groups clock during ∧ Unasked during) :
    Awaited groups (fun _ => Forwarded signal groups clock) groups clock during :=
  ⟨h.1, hnodup, fun group hg => ⟨hg, h.2 group false⟩⟩

theorem unmoved_forwarded (now₁ : ℕ) : Unmoved fun _ => Forwarded signal groups now₁ := by
  intro clock during w group alive h
  refine ⟨fun other => (sent_cons_other other _ rfl).trans (h.1 other), fun entry he hs => ?_⟩
  rcases List.mem_cons.mp he with rfl | he
  · cases hs
  · exact h.2 entry he hs

/-- The second loop waits for what was killed. -/
theorem awaited_of_killing {remaining : List ℕ} (hnodup : remaining.Nodup)
    (h : Killing groups signal remaining remaining clock during) :
    Awaited groups (fun _ _ => True) remaining clock during :=
  ⟨trivial, hnodup, fun group hg => ⟨(h group hg).1, (h group hg).2.1⟩⟩

/-- In the shutdown, before the call of `terminate_groups`. -/
def ShuttingDown (t : Trace) : Prop :=
  Always EscalationOk t ∧ Unterminated t ∧ ∃ number, Action.shutdownBegan number ∈ acts t

theorem escalating_called (h : ShuttingDown t) :
    Escalating groups signal (fun clock during => Forwarded signal [] clock during ∧ Unasked during)
      w (⟨.terminating groups signal, w⟩ :: t) := by
  obtain ⟨halways, hfirst, hbegan⟩ := h
  refine ⟨(always_cons _ _ _).mpr ⟨escalationOk_other _ rfl, halways⟩,
    hbegan.imp fun _ hm => mem_acts_of_mem [_] hm, [], t, _, rfl, ?_, hfirst, ⟨?_, ?_⟩, ?_⟩
  · simp [Unterminated]
  · simp [sent]
  · simp
  · simp [Unasked, acts]

theorem escalated_other (action : Action) (hsignals : action.signals = false)
    (h : Escalated w t) : Escalated w (⟨action, w⟩ :: t) :=
  ⟨(always_cons _ _ _).mpr ⟨escalationOk_other _ hsignals, h.1⟩,
    h.2.imp fun _ hm => mem_acts_of_mem [_] hm⟩

theorem escalating_terminateGroups (hnodup : groups.Nodup) :
    Program.Triple (fun _ t => ShuttingDown t) (terminateGroups groups signal) (fun _ => Escalated)
      Escalated := by
  refine Program.Logic.triple (holds_terminateGroups groups signal (R := Escalated)
    (B := fun remaining w t =>
      remaining.Nodup ∧ Escalating groups signal (Killing groups signal remaining []) w t)
    (C := fun remaining w t =>
      remaining.Nodup ∧ Escalating groups signal (Killing groups signal remaining remaining) w t)
    (fun w t h => ⟨trivial, escalating_called h⟩) (escalating_forward hnodup).holds
    (escalating_steady fun clock later during hle h =>
      ⟨timely_forwarded groups clock later during hle h.1, h.2⟩) (fun now₁ => ?_)
    (fun remaining => ?_)
    (fun remaining => (escalating_steady (timely_killing remaining remaining)).and
      fun _ => remaining.Nodup)
    (fun remaining deadline => ?_) fun w t h => ⟨trivial, escalated_other _ rfl h⟩)
  · -- from here on the clock of the first loop bounds those of the signals sent so far
    have hawait : Program.Triple (Escalating groups signal
        (Awaited groups (fun _ => Forwarded signal groups now₁) groups))
        (awaitGroups (now₁ + shutdownGrace) groups) _ Escalated :=
      escalating_awaitGroups (fun _ _ _ _ h => h) (unmoved_forwarded now₁) _ groups
    refine Program.Logic.conseq _ hawait.holds ?_ fun remaining w t h => ⟨?_, ?_⟩
    · rintro w t ⟨rfl, halways, hbegan, during, before, w₁, ht, hduring, hbefore, hF⟩
      exact ⟨halways, hbegan, during, before, w₁, ht, hduring, hbefore,
        awaited_of_forwarded hnodup hF⟩
    · obtain ⟨-, -, during, before, w₁, -, -, -, hF⟩ := h
      exact hF.1.2.1
    · exact escalating_weaken (fun _ _ hF => killing_of_awaited hF.1 hF.2) w t h
  · exact Program.Logic.fact _ fun hremaining => Program.Logic.post _
      (escalating_kill hremaining).holds fun _ _ _ h => ⟨hremaining, h⟩
  · have hawait : Program.Triple (Escalating groups signal
        (Awaited groups (fun _ _ => True) remaining)) (awaitGroups deadline remaining) _ Escalated :=
      escalating_awaitGroups (fun _ _ _ _ _ => trivial) (fun _ _ _ _ _ _ => trivial) _ remaining
    exact Program.Logic.conseq _ hawait.holds
      (fun w t h => escalating_weaken (fun _ _ hF => awaited_of_killing h.1 hF) w t h.2)
      fun _ w t h => escalating_stop w t h

/-! ### Whole runs -/

theorem escalating_shutdown (signal : ℕ) :
    Program.Triple (fun _ t => Always EscalationOk t ∧ Unterminated t) (shutdown signal)
      (fun _ => Escalated) Escalated := by
  refine Program.Logic.triple (holds_shutdown signal (U := fun _ t => ShuttingDown t)
    (D := fun _ t => ShuttingDown t) (C := fun _ t => ShuttingDown t) (T := fun _ => Escalated)
    (fun w t h => ⟨trivial, ?_, ?_, signal, List.mem_cons_self⟩) (fun _ _ h => ⟨trivial, h⟩)
    (fun _ _ h => ⟨trivial, h⟩) ⟨fun _ _ _ h => ⟨trivial, h⟩, fun _ _ h => ⟨h.1, h.2.2⟩⟩
    (fun groups => Program.Logic.ghost _ fun w₀ t₀ h => ?_)
    fun groups w t h => ⟨trivial, escalated_other _ rfl h⟩)
  · exact (always_cons _ _ _).mpr ⟨escalationOk_other _ rfl, h.1⟩
  · intro entry he
    rcases List.mem_cons.mp he with rfl | he
    · simp [Action.terminates]
    · exact h.2 entry he
  · have hnodup : groups.Nodup := h.1 ▸ List.nodup_dedup _
    refine Program.Logic.pre _ (escalating_terminateGroups hnodup).holds ?_
    rintro w t ⟨rfl, rfl⟩
    exact h.2

/-- Until the shutdown begins, `terminate_groups` has not been called. -/
structure Spared (t : Trace) : Prop where
  always : Always EscalationOk t
  running : Running t → Unterminated t

variable {launch : List CommonProcess} {a b : Program.Place World Entry}

theorem spared_entry (entry : Entry) (hrunning : Running t)
    (hterminates : entry.action.terminates = false) (h : Spared t) : Spared (entry :: t) where
  always := (always_cons _ _ _).mpr
    ⟨escalationOk_unterminated entry (h.running hrunning), h.always⟩
  running := fun _ e he => by
    rcases List.mem_cons.mp he with rfl | he
    · simp [hterminates]
    · exact h.running hrunning e he

theorem spared_onward (honward : Onward launch a b) (hrunning : Running a.2) (h : Spared a.2) :
    Spared b.2 := by
  cases honward with
  | tidying htidying =>
    cases htidying with
    | hop hhop =>
      cases hhop with
      | kernel => exact h
      | told w t action hincidental hhonest =>
        refine spared_entry _ hrunning ?_ h
        cases action with
        | terminating => cases hincidental
        | _ => rfl
    | cleanups => exact h
  | refreshed => exact h
  | exited => exact spared_entry _ hrunning rfl h
  | probed => exact spared_entry _ hrunning rfl h
  | called => exact spared_entry _ hrunning rfl h
  | registered => exact spared_entry _ hrunning rfl h

theorem spared_move (hmove : Move launch a b) (h : Spared a.2) : Spared b.2 := by
  cases hmove with
  | onward honward hrunning => exact spared_onward honward hrunning h
  | failed w t reason hexcused hundecided hrunning => exact spared_entry _ hrunning rfl h
  | uncompleted => exact h
  | completed w t hnone hundecided hrunning => exact spared_entry _ hrunning rfl h
  | concluded w t hcompleted hrunning => exact spared_entry _ hrunning rfl h
  | shutdown w t signal schedule hobserved hrunning =>
    have hend := (escalating_shutdown signal).reached (r := ⟨w, schedule, t⟩)
      ⟨h.always, h.running hrunning⟩ fun _ _ _ h => h
    obtain ⟨halways, number, hbegan⟩ := hend
    exact ⟨halways, fun hstill => absurd hbegan (hstill number)⟩

/-- Every signal sent in the shutdown of a run is one that `terminate_groups` may send. -/
theorem run_escalation (host : Host) (spec : Spec) (kernel : Kernel) (schedule : List Turn)
    (hworthy : Launchworthy host spec) :
    Always EscalationOk (runTrace host spec kernel schedule) := by
  have hspared := run_keeps host spec kernel schedule hworthy (I := fun _ t => Spared t)
    ⟨always_nil _, fun _ _ he => (List.not_mem_nil he).elim⟩ fun _ _ _ _ => spared_move
  exact hspared.always

end Sandcamp.Campd
