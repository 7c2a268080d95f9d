import Sandcamp.Flattening
import Sandcamp.Campd.Escalation
import Sandcamp.Campd.Verdict

/-!
# How campd ends (lib.rs:25-34, main.rs)

`campd` reads its declaration from the environment, starts the ready endpoint and runs the
supervisor; `main` makes an exit status of what comes of it. On the way lines are printed on standard
error, and `eprintln!` panics where one cannot be written.
-/

namespace Sandcamp.Endings
open Foundations Sandcamp.Campd Sandcamp.Flattening
open Handoff (buildCommand_total processes_wellFormed)

/-- What campd finds when it starts. -/
structure Surroundings where
  /-- `env::var(SPEC_ENVIRONMENT)`, of a variable that is set and is Unicode. -/
  encoded : Option Bytes
  /-- `ReadyServer::start(READY_ADDRESS)`; an error is its text. -/
  server : Except Bytes Unit
  host : Host
  /-- Whether the line that is printed with the newest entry can be written. -/
  written : Trace → Bool
  /-- Whether `main` can write the line about this error. -/
  reported : Bytes → Bool

/-- The actions with which a line is printed, or may be: a probe result is when it changes the
readiness, a signal when `kill` fails, the end of a termination when groups are left. -/
def prints : Action → Bool
  | .started .. | .exited .. | .probed .. | .probePassed _ | .jobSucceeded _ | .signalled ..
  | .cleanupAbandoned _ | .initializationCompleted | .initializationFailed _ | .terminated _
  | .finished .shutdown => true
  | _ => false

/-- The run up to the first line that cannot be written. -/
def unwritten (written : Trace → Bool) : Trace → Option Trace
  | [] => none
  | entry :: older =>
    match unwritten written older with
    | some trace => some trace
    | none =>
      if prints entry.action && !written (entry :: older) then some (entry :: older) else none

/-- `campd::run` (`lib.rs:25-34`); every error is the text it displays. -/
def campd (decoders : Decoders) (surroundings : Surroundings) : Act ℕ := do
  let encoded ← Program.ofExcept
    (okOr surroundings.encoded (Failure.error ⟨lit "SANDCAMP_SPEC is required"⟩))
  let spec ← Program.ofExcept ((decode decoders encoded).mapError fun error =>
    Failure.error ⟨error.message⟩)
  Program.ofExcept (surroundings.server.mapError fun error => Failure.error ⟨error⟩)
  run surroundings.host spec

inductive Exit where
  /-- `process::exit(code)`, after a line on standard error if there is one. -/
  | exited (code : ℕ) (message : Option Bytes)
  | panicked
  /-- The panic of an `eprintln!` whose line could not be written. -/
  | unwritten
  | running
  deriving DecidableEq

/-- `main`, once `campd::run` has come to its outcome. -/
def exitOf (surroundings : Surroundings) : Outcome (Failure RuntimeError) ℕ → Exit
  | .value code => .exited code none
  | .raised (.error error) =>
    if surroundings.reported error.message then .exited 1 (some (lit "campd: " ++ error.message))
    else .unwritten
  | .raised .panic => .panicked
  | .pending => .running

/-- `main`: it goes no further than to a line that cannot be written. -/
def main (decoders : Decoders) (surroundings : Surroundings) (kernel : Kernel)
    (schedule : List Turn) : Exit × Trace :=
  match campd decoders surroundings (start kernel schedule) with
  | (outcome, r) =>
    match unwritten surroundings.written r.trace with
    | some trace => (.unwritten, trace)
    | none => (exitOf surroundings outcome, r.trace)

/-- The errors of a run: nothing was launched, or `waitpid` has failed. -/
def Failed (trace : Trace) (message : Bytes) : Prop :=
  trace = [] ∨ ∃ error, message = lit "wait for processes: " ++ error

/-- The newest entry prints a line, which cannot be written. -/
def Silenced (written : Trace → Bool) (trace : Trace) : Prop :=
  written trace = false ∧ ∃ entry older, trace = entry :: older ∧ prints entry.action = true

/-- What an exit says about the run before it. -/
inductive Ending (surroundings : Surroundings) (trace : Trace) : Exit → Prop
  | running : Ending surroundings trace .running
  | failed (message : Bytes) (hfailed : Failed trace message)
      (hreported : surroundings.reported message = true) :
      Ending surroundings trace (.exited 1 (some (lit "campd: " ++ message)))
  | stopped (signal : ℕ) (hhandled : signal ∈ Kernel.handledSignals)
      (hobserved : Action.signalObserved signal ∈ acts trace)
      (hbegan : Action.shutdownBegan signal ∈ acts trace)
      (hterminated : ∃ groups, Action.terminated groups ∈ acts trace) :
      Ending surroundings trace (.exited (128 + signal) none)
  | silenced (hsilenced : Silenced surroundings.written trace) :
      Ending surroundings trace .unwritten
  | unreported (message : Bytes) (hfailed : Failed trace message)
      (hunreported : surroundings.reported message = false) :
      Ending surroundings trace .unwritten

/-! ### What is launched can be launched -/

theorem launchworthy_of_validate (host : Host) (spec : Spec) (h : validate spec = .ok ()) :
    Launchworthy host spec := by
  intro sandrun declarations hflatten process hmem
  have hwell := processes_wellFormed spec ((validate_eq_ok spec).mp h) process.toCommonProcess <| by
    rw [← flatten_common host.passwd spec declarations hflatten]
    exact List.mem_map_of_mem hmem
  refine ⟨buildCommand_total process hwell.executable sandrun, fun hkind => ?_⟩
  have hrules := hwell.kind
  unfold WellFormedKind at hrules
  rw [hkind] at hrules
  obtain ⟨-, timeout, htimeout, -⟩ := hrules
  exact ⟨timeout, htimeout⟩

/-! ### Signals -/

/-- The signals that have come are handled ones. -/
structure Heard (kernel : Kernel) (t : Trace) : Prop where
  kernel : kernel.Signalled
  observed : ∀ signal, Action.signalObserved signal ∈ acts t → signal ∈ Kernel.handledSignals

variable {kernel : Kernel} {t : Trace} {launch : List CommonProcess}
  {a b : Program.Place World Entry}

theorem heard_entry (entry : Entry) (hhonest : entry.action.Honest kernel) (h : Heard kernel t) :
    Heard kernel (entry :: t) where
  kernel := h.kernel
  observed := fun signal hm => by
    rcases (mem_acts_cons _ _ _).mp hm with he | hm
    · rw [← he] at hhonest
      obtain ⟨hsignal, hzero⟩ := hhonest
      rcases h.kernel with hnone | hhandled
      · rw [← hsignal] at hnone
        exact absurd hnone hzero
      · rw [hsignal]
        exact hhandled
    · exact h.observed signal hm

theorem heard_hop (hhop : Hop a b) (h : Heard a.1.kernel a.2) : Heard b.1.kernel b.2 := by
  cases hhop with
  | kernel w t kernel hshift => exact ⟨hshift.signalled h.kernel, h.observed⟩
  | told w t action hincidental hhonest => exact heard_entry ⟨action, w⟩ hhonest h

theorem heard_onward (honward : Onward launch a b) (h : Heard a.1.kernel a.2) :
    Heard b.1.kernel b.2 := by
  cases honward with
  | tidying htidying =>
    cases htidying with
    | hop hhop => exact heard_hop hhop h
    | cleanups => exact h
  | refreshed => exact h
  | exited => exact heard_entry _ trivial h
  | probed => exact heard_entry _ trivial h
  | called => exact heard_entry _ trivial h
  | registered => exact heard_entry _ trivial h

theorem honest_of_parts {signal : ℕ} {action : Action} (h : action.Parts signal) :
    action.Honest kernel := by
  cases action with
  | signalObserved number => exact h.elim
  | _ => trivial

theorem heard_parting {signal : ℕ} (hparting : Parting signal a b) (h : Heard a.1.kernel a.2) :
    Heard b.1.kernel b.2 := by
  cases hparting with
  | hop hhop => exact heard_hop hhop h
  | closed => exact h
  | told w t action hparts => exact heard_entry ⟨action, w⟩ (honest_of_parts hparts) h

theorem heard_move (hmove : Move launch a b) (h : Heard a.1.kernel a.2) :
    Heard b.1.kernel b.2 := by
  cases hmove with
  | onward honward hrunning => exact heard_onward honward h
  | failed => exact heard_entry _ trivial h
  | uncompleted => exact h
  | completed => exact heard_entry _ trivial h
  | concluded => exact heard_entry _ trivial h
  | shutdown w t signal schedule hobserved hrunning =>
    have hpassed := (confined_shutdown (P := Program.anywhere) (X := fun _ => True)
      signal).passes.triple (I := fun w t => Heard w.kernel t) fun _ _ _ _ => heard_parting
    exact hpassed.reached (r := ⟨w, schedule, t⟩) ⟨trivial, h⟩ fun _ _ _ h => h

/-! ### Errors -/

/-- An error before the first launch leaves no trace. -/
theorem run_unlaunched (host : Host) (spec : Spec) (kernel : Kernel) (schedule : List Turn)
    (h : (∃ error, host.contract = .error error) ∨ (∃ error, host.sandrun = .error error) ∨
      ∃ e, flatten host.passwd spec = .error e) :
    runTrace host spec kernel schedule = [] := by
  have hstopped : ∀ {α : Type} (x : Except (Failure RuntimeError) α) (f : α → Act ℕ)
      (r : Run World Turn Entry), (∀ a, x = .ok a → (f a r).2.trace = r.trace) →
        (((Program.ofExcept x : Act α) >>= f) r).2.trace = r.trace := by
    intro α x f r hf
    cases x with
    | ok a => exact hf a rfl
    | error e => rfl
  refine hstopped _ _ (⟨(beginning kernel).1, schedule, []⟩ : Run World Turn Entry) fun _ hok => ?_
  refine hstopped _ _ _ fun sandrun hsandrun => ?_
  refine hstopped _ _ _ fun declarations hflatten => ?_
  rcases h with ⟨error, he⟩ | ⟨error, he⟩ | ⟨e, he⟩
  · rw [he] at hok
    cases hok
  · rw [he] at hsandrun
    cases hsandrun
  · rw [he] at hflatten
    cases hflatten

theorem flatten_noPanic (host : Host) (spec : Spec) : flatten host.passwd spec ≠ .error .panic := by
  rcases flatten_cases host.passwd spec with ⟨-, error, he⟩ | ⟨-, launch, hok, -⟩
  · rw [he]
    simp
  · rw [hok]
    simp

theorem run_raises_cases (host : Host) (spec : Spec) (kernel : Kernel) (schedule : List Turn)
    (hvalid : validate spec = .ok ()) (e : Failure RuntimeError)
    (h : (run host spec (start kernel schedule)).1 = .raised e) :
    ∃ error, e = .error error ∧ (runTrace host spec kernel schedule = [] ∨
      ∃ text, error.message = lit "wait for processes: " ++ text) := by
  rcases run_raises host spec kernel schedule (launchworthy_of_validate host spec hvalid) e h with
    hcontract | hsandrun | hflatten | hwait
  · cases hc : host.contract with
    | ok _ =>
      rw [hc] at hcontract
      cases hcontract
    | error error =>
      rw [hc] at hcontract
      cases hcontract
      exact ⟨error, rfl, Or.inl (run_unlaunched host spec kernel schedule (Or.inl ⟨error, hc⟩))⟩
  · cases hs : host.sandrun with
    | ok _ =>
      rw [hs] at hsandrun
      cases hsandrun
    | error error =>
      rw [hs] at hsandrun
      cases hsandrun
      exact ⟨error, rfl, Or.inl
        (run_unlaunched host spec kernel schedule (Or.inr (Or.inl ⟨error, hs⟩)))⟩
  · cases e with
    | error error =>
      exact ⟨error, rfl, Or.inl
        (run_unlaunched host spec kernel schedule (Or.inr (Or.inr ⟨_, hflatten⟩)))⟩
    | panic => exact absurd hflatten (flatten_noPanic host spec)
  · cases e with
    | error error => exact ⟨error, rfl, Or.inr hwait⟩
    | panic => exact hwait.elim

theorem ending_failed (surroundings : Surroundings) {trace : Trace} {message : Bytes}
    (h : Failed trace message) :
    Ending surroundings trace (exitOf surroundings (.raised (.error ⟨message⟩))) := by
  cases hreported : surroundings.reported message with
  | true =>
    rw [exitOf, if_pos hreported]
    exact .failed message h hreported
  | false =>
    rw [exitOf, hreported, if_neg Bool.false_ne_true]
    exact .unreported message h hreported

/-- How an admitted run ends whose lines can be written. -/
theorem run_ending (surroundings : Surroundings) (spec : Spec) (kernel : Kernel)
    (schedule : List Turn) (hvalid : validate spec = .ok ()) :
    Ending surroundings (runTrace surroundings.host spec kernel schedule)
      (exitOf surroundings (run surroundings.host spec (start kernel schedule)).1) := by
  have hworthy := launchworthy_of_validate surroundings.host spec hvalid
  cases hrun : (run surroundings.host spec (start kernel schedule)).1 with
  | value code =>
    obtain ⟨signal, groups, rfl, hobserved, hbegan, hterminated⟩ :=
      run_ended surroundings.host spec kernel schedule code hrun
    have hheard := run_keeps surroundings.host spec kernel schedule hworthy
      (I := fun w t => Heard w.kernel t)
      ⟨Or.inl rfl, fun _ hm => (List.not_mem_nil hm).elim⟩ fun _ _ _ _ hmove => heard_move hmove
    exact .stopped signal (hheard.observed signal hobserved) hobserved hbegan ⟨groups, hterminated⟩
  | raised e =>
    obtain ⟨error, rfl, hcause⟩ :=
      run_raises_cases surroundings.host spec kernel schedule hvalid e hrun
    exact ending_failed surroundings hcause
  | pending => exact .running

/-- The declarations that campd has admitted. -/
def declared (decoders : Decoders) (surroundings : Surroundings) : List CommonProcess :=
  match surroundings.encoded.map (decode decoders) with
  | some (.ok spec) => spec.processes
  | _ => []

/-- campd refuses what it finds, or it runs what it has admitted. -/
theorem campd_cases (decoders : Decoders) (surroundings : Surroundings) :
    (∃ message, ∀ r, campd decoders surroundings r = (.raised (.error ⟨message⟩), r)) ∨
      ∃ spec, validate spec = .ok () ∧ declared decoders surroundings = spec.processes ∧
        campd decoders surroundings = run surroundings.host spec := by
  cases hencoded : surroundings.encoded with
  | none =>
    refine Or.inl ⟨lit "SANDCAMP_SPEC is required", fun r => ?_⟩
    simp only [campd, hencoded]
    rfl
  | some encoded =>
    have hcampd : campd decoders surroundings = (do
        let spec ← Program.ofExcept ((decode decoders encoded).mapError fun error =>
          Failure.error ⟨error.message⟩)
        Program.ofExcept (surroundings.server.mapError fun error => Failure.error ⟨error⟩)
        run surroundings.host spec) := by
      simp only [campd, hencoded]
      rfl
    cases hdecode : decode decoders encoded with
    | error error =>
      refine Or.inl ⟨error.message, fun r => ?_⟩
      rw [hcampd, hdecode]
      rfl
    | ok spec =>
      cases hserver : surroundings.server with
      | error error =>
        refine Or.inl ⟨error, fun r => ?_⟩
        rw [hcampd, hdecode, hserver]
        rfl
      | ok _ =>
        refine Or.inr ⟨spec, validate_of_decode hdecode, ?_, ?_⟩
        · rw [declared, hencoded, Option.map_some, hdecode]
        · rw [hcampd, hdecode, hserver]
          rfl

/-! ### Lines -/

variable {written : Trace → Bool} {trace : Trace}

/-- A run that ends at a line has come as far as there. -/
theorem unwritten_some (h : unwritten written t = some trace) :
    trace <:+ t ∧ Silenced written trace := by
  induction t with
  | nil => cases h
  | cons entry older ih =>
    rw [unwritten] at h
    cases hearlier : unwritten written older with
    | some earlier =>
      rw [hearlier] at h
      obtain rfl := Option.some.inj h
      obtain ⟨hsuffix, hsilenced⟩ := ih hearlier
      exact ⟨hsuffix.trans (List.suffix_cons entry older), hsilenced⟩
    | none =>
      rw [hearlier] at h
      simp only [Option.ite_none_right_eq_some, Bool.and_eq_true, Bool.not_eq_true',
        Option.some.injEq] at h
      obtain ⟨⟨hprints, hfails⟩, rfl⟩ := h
      exact ⟨List.suffix_rfl, hfails, entry, older, rfl, hprints⟩

/-! ### Endings -/

/-- `main` ends where its run does, or at a line before. -/
theorem main_cases (decoders : Decoders) (surroundings : Surroundings) (kernel : Kernel)
    (schedule : List Turn) :
    (∃ message, main decoders surroundings kernel schedule =
        (exitOf surroundings (.raised (.error ⟨message⟩)), [])) ∨
      ∃ spec, validate spec = .ok () ∧ declared decoders surroundings = spec.processes ∧
        ((∃ trace, trace <:+ runTrace surroundings.host spec kernel schedule ∧
            Silenced surroundings.written trace ∧
            main decoders surroundings kernel schedule = (.unwritten, trace)) ∨
          main decoders surroundings kernel schedule =
            (exitOf surroundings (run surroundings.host spec (start kernel schedule)).1,
              runTrace surroundings.host spec kernel schedule)) := by
  rcases campd_cases decoders surroundings with ⟨message, hrefused⟩ |
    ⟨spec, hvalid, hdeclared, hcampd⟩
  · refine Or.inl ⟨message, ?_⟩
    rw [main, hrefused]
    rfl
  · refine Or.inr ⟨spec, hvalid, hdeclared, ?_⟩
    rw [main, hcampd, runTrace]
    cases hunwritten : unwritten surroundings.written
      (run surroundings.host spec (start kernel schedule)).2.trace with
    | some trace =>
      obtain ⟨hsuffix, hsilenced⟩ := unwritten_some hunwritten
      refine Or.inl ⟨trace, hsuffix, hsilenced, ?_⟩
      simp only [hunwritten]
    | none =>
      refine Or.inr ?_
      simp only [hunwritten]

/-- Whatever campd finds and whatever happens around it, its main thread panics only in printing a
line that cannot be written: otherwise it goes on, it exits with 1 before anything was launched or
because `waitpid` has failed, or it exits with 128 and a signal it handles, which it has observed,
after it has terminated the groups. -/
theorem main_ending (decoders : Decoders) (surroundings : Surroundings) (kernel : Kernel)
    (schedule : List Turn) :
    Ending surroundings (main decoders surroundings kernel schedule).2
      (main decoders surroundings kernel schedule).1 := by
  rcases main_cases decoders surroundings kernel schedule with ⟨message, hmain⟩ |
    ⟨spec, hvalid, -, ⟨trace, -, hsilenced, hmain⟩ | hmain⟩
  · rw [hmain]
    exact ending_failed surroundings (Or.inl rfl)
  · rw [hmain]
    exact .silenced hsilenced
  · rw [hmain]
    exact run_ending surroundings spec kernel schedule hvalid

/-- Where all lines can be written, there is no panic. -/
theorem main_noPanic (decoders : Decoders) (surroundings : Surroundings) (kernel : Kernel)
    (schedule : List Turn) (hwritten : ∀ trace, surroundings.written trace = true)
    (hreported : ∀ message, surroundings.reported message = true) :
    (main decoders surroundings kernel schedule).1 ≠ .panicked ∧
      (main decoders surroundings kernel schedule).1 ≠ .unwritten := by
  have hending := main_ending decoders surroundings kernel schedule
  refine ⟨fun hpanicked => ?_, fun hunwritten => ?_⟩
  · rw [hpanicked] at hending
    cases hending
  · rw [hunwritten] at hending
    cases hending with
    | silenced hsilenced =>
      obtain ⟨hfails, -⟩ := hsilenced
      rw [hwritten] at hfails
      cases hfails
    | unreported message _ hunreported =>
      rw [hreported] at hunreported
      cases hunreported

/-! ### What campd does on the way -/

/-- `main` goes along the run, to its end or to a line on the way. -/
theorem main_trace (decoders : Decoders) (surroundings : Surroundings) (kernel : Kernel)
    (schedule : List Turn) :
    (main decoders surroundings kernel schedule).2 = [] ∨
      ∃ spec, validate spec = .ok () ∧ declared decoders surroundings = spec.processes ∧
        (main decoders surroundings kernel schedule).2 <:+
          runTrace surroundings.host spec kernel schedule := by
  rcases main_cases decoders surroundings kernel schedule with ⟨message, hmain⟩ |
    ⟨spec, hvalid, hdeclared, ⟨trace, hsuffix, -, hmain⟩ | hmain⟩
  · exact Or.inl (by rw [hmain])
  · exact Or.inr ⟨spec, hvalid, hdeclared, by rw [hmain]; exact hsuffix⟩
  · exact Or.inr ⟨spec, hvalid, hdeclared, by rw [hmain]⟩

/-- Along every run of campd: the failure of an initialization is the first that happened, it has
its cause in the run, nothing is launched behind it, it is reported once at most and with its own
reason, and so is the completion. -/
theorem main_verdict (decoders : Decoders) (surroundings : Surroundings) (kernel : Kernel)
    (schedule : List Turn) :
    Always (VerdictOk (declared decoders surroundings))
      (main decoders surroundings kernel schedule).2 := by
  rcases main_trace decoders surroundings kernel schedule with hnothing |
    ⟨spec, hvalid, hdeclared, hsuffix⟩
  · rw [hnothing]
    exact always_nil _
  · rw [hdeclared]
    exact always_suffix
      (run_verdict _ spec kernel schedule (launchworthy_of_validate _ spec hvalid)) hsuffix

/-- Along every run of campd: behind an observed signal nothing is done before it has been forwarded
to each of the groups, once; then a group gets at most one `SIGKILL`, not before the grace is over
and not once it was found gone. -/
theorem main_escalation (decoders : Decoders) (surroundings : Surroundings) (kernel : Kernel)
    (schedule : List Turn) :
    Always EscalationOk (main decoders surroundings kernel schedule).2 ∧
      Always (fun entry older => Heeds older entry.action)
        (main decoders surroundings kernel schedule).2 := by
  rcases main_trace decoders surroundings kernel schedule with hnothing |
    ⟨spec, hvalid, -, hsuffix⟩
  · rw [hnothing]
    exact ⟨always_nil _, always_nil _⟩
  · have hsafe := run_safe surroundings.host spec kernel schedule
    exact ⟨always_suffix
      (run_escalation _ spec kernel schedule (launchworthy_of_validate _ spec hvalid)) hsuffix,
      always_suffix (heeded_of_safe hsafe) hsuffix⟩

end Sandcamp.Endings
