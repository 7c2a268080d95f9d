import Sandcamp.Campd.Itinerary

/-!
# The verdict on an initialization

The first failure of an initialization is the one on record and the one reported; it is a fault
of the declaration that was being launched or the exit of a service.
-/

namespace Sandcamp.Campd
open Foundations

variable {launch : List CommonProcess} {w w' : World} {t t' : Trace}

/-- The entry tells of what has made the initialization fail for this reason. -/
inductive Blamed (launch : List CommonProcess) (entry : Entry) (older : Trace) (reason : Bytes) :
    Prop
  | exited (index : ℕ) (declaration : CommonProcess) (status : ℕ) (residual : Bool)
      (haction : entry.action = .exited index status residual)
      (hdeclared : launch[index]? = some declaration) (hkind : declaration.kind = .service)
      (hreason : reason = lit "service process " ++ declaration.name ++
        lit " exited during initialization with " ++ displayStatus status)
  | fault (haction : entry.action = .initializationFailed reason)
      (hfault : Fault launch entry.world older reason)

structure VerdictOk (launch : List CommonProcess) (entry : Entry) (older : Trace) : Prop where
  /-- A failure stays on record. -/
  settled : ∀ e ∈ older, ∀ reason, e.world.supervisor.startupFailure = some reason →
    entry.world.supervisor.startupFailure = some reason
  /-- The first one has a cause. -/
  blamed : ∀ reason, entry.world.supervisor.startupFailure = some reason →
    (∀ e ∈ older, e.world.supervisor.startupFailure = none) → Blamed launch entry older reason
  /-- What is reported is what is on record, and it is reported once. -/
  failed : ∀ reason, entry.action = .initializationFailed reason →
    entry.world.supervisor.startupFailure = some reason ∧ Undecided older
  completed : entry.action = .initializationCompleted →
    entry.world.supervisor.startupFailure = none ∧ Undecided older
  /-- Nothing is launched behind a failure. -/
  launching : ∀ process, entry.action = .spawning process →
    entry.world.supervisor.startupFailure = none
  /-- The end of the initialization is reported, unless the failure on record is the exit of a
  service behind which nothing was launched. -/
  concluded : entry.action = .finished .initialization →
    Action.initializationCompleted ∈ acts older ∨ ∃ reason,
      entry.world.supervisor.startupFailure = some reason ∧
        (Action.initializationFailed reason ∈ acts older ∨ ∃ newer e earlier,
          older = newer ++ e :: earlier ∧ Blamed launch e earlier reason ∧
            (∃ index status residual, e.action = .exited index status residual) ∧
            ∀ x ∈ newer, ∀ process, x.action ≠ .spawning process)

/-- Every registered process is a declared one. -/
def Enrolled (launch : List CommonProcess) (sup : Supervisor) : Prop :=
  ∀ (i : ℕ) (process : ManagedProcess), sup.processes[i]? = some process →
    ∃ declaration : CommonProcess, launch[i]? = some declaration ∧
      process.name = declaration.name ∧ process.kind = declaration.kind

theorem enrolled_labels {sup sup' : Supervisor} (hlabels : sup'.labels = sup.labels)
    (h : Enrolled launch sup) : Enrolled launch sup' := by
  intro i process hp
  have hlabel : sup.labels[i]? = some (process.name, process.kind) := by
    rw [← hlabels, Supervisor.labels, List.getElem?_map, hp, Option.map_some]
  rw [Supervisor.labels, List.getElem?_map] at hlabel
  obtain ⟨old, hold, hsame⟩ := Option.map_eq_some_iff.mp hlabel
  obtain ⟨declaration, hdeclared, hname, hkind⟩ := h i old hold
  refine ⟨declaration, hdeclared, ?_, ?_⟩
  · rw [← hname]
    exact (congrArg Prod.fst hsame).symm
  · rw [← hkind]
    exact (congrArg Prod.snd hsame).symm

theorem enrolled_withProcess {declaration : CommonProcess} (group : GroupId)
    (hturn : launch[w.supervisor.processes.length]? = some declaration)
    (h : Enrolled launch w.supervisor) :
    Enrolled launch (w.withProcess declaration group).supervisor := by
  intro i process hp
  rcases getElem?_snoc.mp hp with hp | ⟨rfl, rfl⟩
  · exact h i process hp
  · exact ⟨declaration, hturn, rfl, rfl⟩

/-! ### What the moves keep -/

/-- The trace so far is as it has to be, and the failure on record is known to it. -/
structure Judged (launch : List CommonProcess) (sup : Supervisor) (t : Trace) : Prop where
  always : Always (VerdictOk launch) t
  settled : ∀ e ∈ t, ∀ reason, e.world.supervisor.startupFailure = some reason →
    sup.startupFailure = some reason
  recorded : ∀ reason, sup.startupFailure = some reason →
    ∃ e ∈ t, e.world.supervisor.startupFailure = some reason
  enrolled : Enrolled launch sup

variable {sup sup' : Supervisor} {a b : Program.Place World Entry}

theorem judged_update (h : Judged launch sup t)
    (hfailure : sup'.startupFailure = sup.startupFailure) (henrolled : Enrolled launch sup') :
    Judged launch sup' t where
  always := h.always
  settled := fun e he reason hr => hfailure.trans (h.settled e he reason hr)
  recorded := fun reason hr => h.recorded reason (hfailure.symm.trans hr)
  enrolled := henrolled

/-- Actions that tell nothing of a verdict. -/
def Action.verdictless : Action → Bool
  | .spawning _ | .initializationFailed _ | .initializationCompleted | .finished .initialization =>
    false
  | _ => true

/-- The failure on record is not the first entry's. -/
theorem not_first (h : Judged launch sup t) {reason : Bytes}
    (hfailure : sup.startupFailure = some reason)
    (hnone : ∀ e ∈ t, e.world.supervisor.startupFailure = none) : False := by
  obtain ⟨e, he, hsome⟩ := h.recorded reason hfailure
  rw [hnone e he] at hsome
  cases hsome

theorem judged_entry (entry : Entry) (hok : VerdictOk launch entry t)
    (h : Judged launch entry.world.supervisor t) :
    Judged launch entry.world.supervisor (entry :: t) where
  always := (always_cons _ _ _).mpr ⟨hok, h.always⟩
  settled := fun e he reason hr => by
    rcases List.mem_cons.mp he with rfl | he
    · exact hr
    · exact h.settled e he reason hr
  recorded := fun reason hr => ⟨entry, List.mem_cons_self, hr⟩
  enrolled := h.enrolled

theorem judged_told (entry : Entry) (hverdictless : entry.action.verdictless = true)
    (h : Judged launch entry.world.supervisor t) :
    Judged launch entry.world.supervisor (entry :: t) := by
  refine judged_entry entry ?_ h
  exact
    { settled := fun e he reason hr => h.settled e he reason hr
      blamed := fun reason hr hnone => (not_first h hr hnone).elim
      failed := fun reason he => by
        rw [he] at hverdictless
        cases hverdictless
      completed := fun he => by
        rw [he] at hverdictless
        cases hverdictless
      launching := fun process he => by
        rw [he] at hverdictless
        cases hverdictless
      concluded := fun he => by
        rw [he] at hverdictless
        cases hverdictless }

/-- An entry that tells of the first failure. -/
theorem judged_first (entry : Entry) (hnone : sup.startupFailure = none)
    (hblamed : ∀ reason, entry.world.supervisor.startupFailure = some reason →
      Blamed launch entry t reason)
    (hfailed : ∀ reason, entry.action = .initializationFailed reason →
      entry.world.supervisor.startupFailure = some reason ∧ Undecided t)
    (hcompleted : entry.action ≠ .initializationCompleted)
    (hconcluded : entry.action ≠ .finished .initialization)
    (hlaunching : ∀ process, entry.action ≠ .spawning process)
    (henrolled : Enrolled launch entry.world.supervisor) (h : Judged launch sup t) :
    Judged launch entry.world.supervisor (entry :: t) := by
  have hold : ∀ e ∈ t, ∀ reason, e.world.supervisor.startupFailure ≠ some reason := by
    intro e he reason hr
    have hsome := h.settled e he reason hr
    rw [hnone] at hsome
    cases hsome
  have hok : VerdictOk launch entry t :=
    { settled := fun e he reason hr => absurd hr (hold e he reason)
      blamed := fun reason hr _ => hblamed reason hr
      failed := hfailed
      completed := fun he => absurd he hcompleted
      launching := fun process he => absurd he (hlaunching process)
      concluded := fun he => absurd he hconcluded }
  exact
    { always := (always_cons _ _ _).mpr ⟨hok, h.always⟩
      settled := fun e he reason hr => by
        rcases List.mem_cons.mp he with rfl | he
        · exact hr
        · exact absurd hr (hold e he reason)
      recorded := fun reason hr => ⟨entry, List.mem_cons_self, hr⟩
      enrolled := henrolled }

theorem judged_exited {index status : ℕ} {residual : Bool} {process : ManagedProcess}
    (hprocess : w.supervisor.processes[index]? = some process) (h : Judged launch w.supervisor t) :
    Judged launch (w.supervisor.markExited index status residual process)
      (⟨.exited index status residual,
        { w with supervisor := w.supervisor.markExited index status residual process }⟩ :: t) := by
  have henrolled : Enrolled launch (w.supervisor.markExited index status residual process) :=
    enrolled_labels (map_set _ hprocess rfl) h.enrolled
  by_cases hnew : w.supervisor.startupFailure = none ∧ process.kind = .service ∧
      w.supervisor.initializationComplete = false
  · obtain ⟨hnone, hservice⟩ := hnew
    refine judged_first ⟨.exited index status residual, { w with supervisor := _ }⟩ hnone ?_
      (fun _ he => by cases he) (by simp) (by simp) (by simp) henrolled h
    intro reason hr
    obtain ⟨declaration, hdeclared, hname, hkind⟩ := h.enrolled index process hprocess
    refine .exited index declaration status residual rfl hdeclared (hkind ▸ hservice.1) ?_
    simp only [if_pos hservice, hnone, Option.getD_none, Option.some.injEq] at hr
    rw [← hr, hname]
  · refine judged_told ⟨.exited index status residual, { w with supervisor := _ }⟩ rfl ?_
    refine judged_update h ?_ henrolled
    simp only
    split
    · rename_i hservice
      cases hfailure : w.supervisor.startupFailure with
      | none => exact absurd ⟨hfailure, hservice⟩ hnew
      | some reason => rfl
    · rfl

theorem judged_hop (hhop : Hop a b) (h : Judged launch a.1.supervisor a.2) :
    Judged launch b.1.supervisor b.2 := by
  cases hhop with
  | kernel => exact h
  | told w t action hincidental hhonest =>
    refine judged_told ⟨action, w⟩ ?_ h
    cases action with
    | spawning | initializationFailed | initializationCompleted => cases hincidental
    | finished step =>
      cases step with
      | initialization => cases hincidental
      | _ => rfl
    | _ => rfl

theorem judged_onward (honward : Onward launch a b) (h : Judged launch a.1.supervisor a.2) :
    Judged launch b.1.supervisor b.2 := by
  cases honward with
  | tidying htidying =>
    cases htidying with
    | hop hhop => exact judged_hop hhop h
    | cleanups => exact judged_update h rfl h.enrolled
  | refreshed => exact judged_update h rfl h.enrolled
  | exited w t index status residual process hprocess halive => exact judged_exited hprocess h
  | probed w t index process state success hprocess hprobe =>
    refine judged_told ⟨.probed index success, { w with supervisor := _ }⟩ rfl ?_
    exact judged_update h rfl (enrolled_labels (map_set _ hprocess rfl) h.enrolled)
  | called w t process hnone =>
    refine judged_entry ⟨.spawning process, w⟩ ?_ h
    exact
      { settled := fun e he reason hr => h.settled e he reason hr
        blamed := fun reason hr hall => (not_first h hr hall).elim
        failed := fun reason he => by cases he
        completed := fun he => by cases he
        launching := fun _ _ => hnone
        concluded := fun he => by cases he }
  | registered w t declaration group hturn =>
    refine judged_told ⟨_, w.withProcess declaration group⟩ rfl ?_
    exact judged_update h rfl (enrolled_withProcess group hturn h.enrolled)

theorem judged_parting {signal : ℕ} (hparting : Parting signal a b)
    (h : Judged launch a.1.supervisor a.2) : Judged launch b.1.supervisor b.2 := by
  cases hparting with
  | hop hhop => exact judged_hop hhop h
  | closed w t supervisor hfailure hlabels =>
    exact judged_update h hfailure (enrolled_labels hlabels h.enrolled)
  | told w t action hparts =>
    refine judged_told ⟨action, w⟩ ?_ h
    cases action with
    | spawning | initializationFailed | initializationCompleted => exact hparts.elim
    | finished step =>
      cases step with
      | initialization => exact hparts.elim
      | _ => rfl
    | _ => rfl

theorem judged_failed {reason : Bytes} (hexcused : Excused launch reason w t)
    (hundecided : Undecided t) (h : Judged launch w.supervisor t) :
    Judged launch (w.withFailure reason).supervisor
      (⟨.initializationFailed reason, w.withFailure reason⟩ :: t) := by
  rcases hexcused with hknown | ⟨hnone, hfault⟩
  · have hsame : (w.withFailure reason).supervisor.startupFailure = w.supervisor.startupFailure := by
      simp only [World.withFailure, hknown, Option.getD_some]
    have hupdated := judged_update h hsame (enrolled_labels rfl h.enrolled)
    refine judged_entry ⟨.initializationFailed reason, w.withFailure reason⟩ ?_ hupdated
    exact
      { settled := fun e he reason hr => hupdated.settled e he reason hr
        blamed := fun other hr hall => (not_first hupdated hr hall).elim
        failed := fun other he => by
          cases he
          exact ⟨hsame.trans hknown, hundecided⟩
        completed := fun he => by cases he
        launching := fun process he => by cases he
        concluded := fun he => by cases he }
  · have hnew : (w.withFailure reason).supervisor.startupFailure = some reason := by
      simp only [World.withFailure, hnone, Option.getD_none]
    refine judged_first ⟨.initializationFailed reason, w.withFailure reason⟩ hnone ?_ ?_ (by simp)
      (by simp) (by simp) (enrolled_labels rfl h.enrolled) h
    · intro other hr
      obtain rfl : reason = other := Option.some.inj (hnew.symm.trans hr)
      exact .fault rfl (fault_world hfault rfl (Nat.le_refl _))
    · intro other he
      cases he
      exact ⟨hnew, hundecided⟩

/-- A failure on record has a first entry, which is blamed; nothing is launched behind it. -/
theorem blamed_of_judged {reason : Bytes} (hfailure : sup.startupFailure = some reason)
    (h : Judged launch sup t) :
    ∃ newer e earlier, t = newer ++ e :: earlier ∧ Blamed launch e earlier reason ∧
      ∀ x ∈ newer, ∀ process, x.action ≠ .spawning process := by
  obtain ⟨e, he, hr⟩ := h.recorded reason hfailure
  obtain ⟨newer, first, earlier, rfl, hsome, hnone⟩ := exists_oldest
    (fun e : Entry => e.world.supervisor.startupFailure.isSome = true) t ⟨e, he, by rw [hr]; rfl⟩
  obtain ⟨found, hfound⟩ := Option.isSome_iff_exists.mp hsome
  have hsame := h.settled first (List.mem_append_right _ List.mem_cons_self) found hfound
  obtain rfl : reason = found := Option.some.inj (hfailure.symm.trans hsame)
  refine ⟨newer, first, earlier, rfl,
    (h.always newer first earlier rfl).blamed reason hfound fun x hx => ?_, ?_⟩
  · simpa using hnone x hx
  · intro x hx process hspawning
    obtain ⟨behind, between, rfl⟩ := List.append_of_mem hx
    have hok := h.always behind x (between ++ first :: earlier) (by simp)
    have hlater := hok.settled first (List.mem_append_right _ List.mem_cons_self) reason hfound
    rw [hok.launching process hspawning] at hlater
    cases hlater

theorem judged_concluded (hcompleted : w.supervisor.startupFailure = none →
      Action.initializationCompleted ∈ acts t) (h : Judged launch w.supervisor t) :
    Judged launch w.supervisor (⟨.finished .initialization, w⟩ :: t) := by
  refine judged_entry ⟨.finished .initialization, w⟩ ?_ h
  exact
    { settled := fun e he reason hr => h.settled e he reason hr
      blamed := fun reason hr hnone => (not_first h hr hnone).elim
      failed := fun reason he => by cases he
      completed := fun he => by cases he
      launching := fun process he => by cases he
      concluded := fun _ => by
        rcases Option.eq_none_or_eq_some w.supervisor.startupFailure with
          hnone | ⟨reason, hfailure⟩
        · exact Or.inl (hcompleted hnone)
        · obtain ⟨newer, e, earlier, rfl, hblamed, hnewer⟩ := blamed_of_judged hfailure h
          refine Or.inr ⟨reason, hfailure, ?_⟩
          cases hblamed with
          | exited index declaration status residual haction hdeclared hkind hreason =>
            exact Or.inr ⟨newer, e, earlier, rfl, .exited index declaration status residual
              haction hdeclared hkind hreason, ⟨index, status, residual, haction⟩, hnewer⟩
          | fault haction hfault =>
            refine Or.inl (mem_acts_of_mem newer ?_)
            exact (mem_acts_cons _ _ _).mpr (Or.inl haction.symm) }

theorem judged_move (hmove : Move launch a b) (h : Judged launch a.1.supervisor a.2) :
    Judged launch b.1.supervisor b.2 := by
  cases hmove with
  | onward honward hrunning => exact judged_onward honward h
  | failed w t reason hexcused hundecided hrunning => exact judged_failed hexcused hundecided h
  | uncompleted w t => exact judged_update h rfl h.enrolled
  | completed w t hnone hundecided hrunning =>
    have hupdated : Judged launch w.withCompletion.supervisor t :=
      judged_update h rfl (enrolled_labels rfl h.enrolled)
    refine judged_entry ⟨.initializationCompleted, w.withCompletion⟩ ?_ hupdated
    exact
      { settled := fun e he reason hr => hupdated.settled e he reason hr
        blamed := fun reason hr hall => (not_first hupdated hr hall).elim
        failed := fun reason he => by cases he
        completed := fun _ => ⟨hnone, hundecided⟩
        launching := fun process he => by cases he
        concluded := fun he => by cases he }
  | concluded w t hcompleted hrunning => exact judged_concluded hcompleted h
  | shutdown w t signal schedule hobserved hrunning =>
    have hpassed := (confined_shutdown (P := Program.anywhere) (X := fun _ => True)
      signal).passes.triple (I := fun w t => Judged launch w.supervisor t)
      fun _ _ _ _ => judged_parting
    exact hpassed.reached (r := ⟨w, schedule, t⟩) ⟨trivial, h⟩ fun _ _ _ h => h

/-- Every entry of a run is as `VerdictOk` requires. -/
theorem run_verdict (host : Host) (spec : Spec) (kernel : Kernel) (schedule : List Turn)
    (hworthy : Launchworthy host spec) :
    Always (VerdictOk spec.processes) (runTrace host spec kernel schedule) := by
  have hjudged := run_keeps host spec kernel schedule hworthy
    (I := fun w t => Judged spec.processes w.supervisor t) ?_ fun _ _ _ _ => judged_move
  · exact hjudged.always
  · exact
      { always := always_nil _
        settled := fun e he => (List.not_mem_nil he).elim
        recorded := fun reason hr => by cases hr
        enrolled := fun i process hp => by cases hp }

end Sandcamp.Campd
