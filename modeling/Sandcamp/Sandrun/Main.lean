import Sandcamp.Sandrun.Arguments
import Sandcamp.Sandrun.Phases
import Sandcamp.Sandrun.Transcript

/-!
# How sandrun ends (main.rs)

`main` prints a text, refuses its arguments, or runs: then it becomes the command, or it exits with
an error. `print!` and `eprintln!` panic where the text cannot be written.
-/

namespace Sandcamp.Sandrun
open Foundations

/-- `is_help` (`lib.rs:548-550`). -/
def isHelp (argument : Bytes) : Bool := argument = lit "-h" || argument = lit "--help"

/-- `is_version` (`lib.rs:552-554`). -/
def isVersion (argument : Bytes) : Bool := argument = lit "-V" || argument = lit "--version"

/-- What `main` prints: on standard output the first two, on standard error the others. -/
inductive Line where
  | usage
  | version
  | invalidArguments (error : ConfigError)
  | tryHelp
  | failure (error : RuntimeError)
  deriving DecidableEq

inductive Exit where
  /-- The usage is printed. -/
  | help
  | version
  | refused (error : ConfigError)
  | failed (error : RuntimeError)
  | panicked
  /-- The panic of a `print!` or an `eprintln!` whose text could not be written. -/
  | unwritten (line : Line)
  /-- The command has taken the place of the program. -/
  | replaced
  deriving DecidableEq

/-- The status that sandrun itself exits with; a panic aborts it (`panic = "abort"`). -/
def Exit.status : Exit → Option ℕ
  | .help | .version => some 0
  | .refused _ => some 2
  | .failed _ => some 125
  | .panicked | .unwritten _ | .replaced => none

/-- A text is printed, if it can be written, and then the program goes on to its end. -/
def printing (written : Line → Bool) (line : Line) (exit : Exit) : Exit :=
  if written line then exit else .unwritten line

/-- `if let Err(error) = sandrun::run(config)`. -/
def handle (written : Line → Bool) : Linux Unit → Linux Exit
  | .pure () => pure .replaced
  | .fail (.error error) => pure (printing written (.failure error) (.failed error))
  | .fail .panic => pure .panicked
  | .op o next => .op o fun answer => handle written (next answer)

/-- `main`, with the arguments behind the name of the program; `written` tells which texts standard
output and standard error take. -/
def main (sha256 : Bytes → Bytes) (written : Line → Bool) (arguments : List Bytes) : Linux Exit :=
  if arguments.length = 1 ∧ arguments.any isHelp then pure (printing written .usage .help)
  else if arguments.length = 1 ∧ arguments.any isVersion then
    pure (printing written .version .version)
  else match parseArgs arguments with
    | .error (.error error) =>
      pure (printing written (.invalidArguments error)
        (printing written .tryHelp (.refused error)))
    | .error .panic => pure .panicked
    | .ok config => handle written (Linux.run sha256 config)

/-- What has come before a text is printed. -/
def Line.Due (arguments : List Bytes) (history : List Event) : Line → Prop
  | .usage | .version => history = []
  | .invalidArguments error => history = [] ∧ parseArgs arguments = .error (.error error)
  | .tryHelp => history = [] ∧ ∃ error, parseArgs arguments = .error (.error error)
  | .failure _ => ∃ config, parseArgs arguments = .ok config

/-- What an ending says about the run. -/
def Ending (sha256 : Bytes → Bytes) (written : Line → Bool) (arguments : List Bytes)
    (history : List Event) : Exit → Prop
  | .help => history = [] ∧ written .usage = true
  | .version => history = [] ∧ written .version = true
  | .refused error => history = [] ∧ parseArgs arguments = .error (.error error) ∧
      written (.invalidArguments error) = true ∧ written .tryHelp = true
  | .failed error => (∃ config, parseArgs arguments = .ok config) ∧
      written (.failure error) = true
  | .panicked => False
  | .unwritten line => written line = false ∧ line.Due arguments history
  | .replaced => ∃ config, parseArgs arguments = .ok config ∧
      Separated arguments config.command ∧ Became sha256 config history

/-! ### Nothing is missing -/

open Thread

theorem furnished_of_accepted {config : Config} (h : config.Accepted) : config.Furnished := by
  obtain ⟨executable, rest, hcommand, -⟩ := h.command
  refine ⟨?_, fun hdisk => h.device_id (h.disk_device hdisk)⟩
  rw [hcommand]
  rfl

theorem accepted_of_parseArgs {arguments : List Bytes} {config : Config}
    (h : parseArgs arguments = .ok config) :
    config.Accepted ∧ Separated arguments config.command := by
  obtain ⟨settings, options, command, hall, rfl, hfinish⟩ := parseArgs_reads h
  have hinitial : Options.initial.IdsValid := ⟨nofun, nofun⟩
  obtain ⟨haccepted, rfl⟩ := accepted_config (idsValid_setAll settings hinitial hall) hfinish
  exact ⟨haccepted, separated_settings settings config.command⟩

namespace Linux

variable {E : Failure RuntimeError → Prop} [Refuses E]

/-- Whatever is answered to it, a run panics only where it misses something. -/
theorem run_asks (sha256 : Bytes → Bytes) {config : Config} (h : E .panic ∨ config.Furnished) :
    Asks (fun _ => True) E (run sha256 config) fun _ => True := by
  have hlocal : ∀ {α : Type} {Q : α → Prop} {t : Linux α},
      Asks (Filing fun _ => True) E t Q → Asks (fun _ => True) E t Q := fun ht =>
    asks_mono ht (fun _ _ => trivial) (fun _ he => he) fun _ ha => ha
  have htame : ∀ {α : Type} {Q : α → Prop} {t : Linux α},
      Asks Tame E t Q → Asks (fun _ => True) E t Q := fun ht =>
    asks_mono ht (fun _ _ => trivial) (fun _ he => he) fun _ ha => ha
  have hcall : ∀ o, Asks (fun _ => True) E (syscall o) fun _ => True := fun o =>
    asks_perform o trivial
  refine asks_bind (hlocal (prepareRootfs_asks _)) fun lower _ => ?_
  refine asks_bind (hlocal (resolveIdentity_asks _ _)) fun identity _ => ?_
  refine asks_bind (hlocal (prepareBindSources_asks fun _ _ _ _ => trivial)) fun _ _ => ?_
  have hunshare : Asks (fun _ => True) E unshareMountNamespace fun _ => True :=
    asks_bind (hcall _) fun _ _ => asks_any (asks_check _ _)
  have hprivate : Asks (fun _ => True) E makeMountsPrivate fun _ => True := by
    have hnone : Asks (fun _ => True) E (optionalCString "mount_propagation_private_failed" none)
        fun _ => True := trivial
    refine asks_bind hnone fun _ _ => asks_bind (asks_check _ _) fun _ _ => ?_
    refine asks_bind hnone fun _ _ => asks_bind hnone fun _ _ => ?_
    exact asks_bind (hcall _) fun _ _ => asks_any (asks_check _ _)
  refine asks_bind hunshare fun _ _ => asks_bind hprivate fun _ _ => ?_
  refine asks_bind (htame (prepare_tame config lower h)) fun result _ => ?_
  refine asks_bind (htame (asks_each fun operation _ => applyMount_tame operation)) fun _ _ => ?_
  have henter : Asks (fun _ => True) E (enterRootfs result.1) fun _ => True := by
    refine asks_bind (htame (changeDirectoryOuter_tame _ _)) fun _ _ => ?_
    refine asks_bind (hcall _) fun _ _ => asks_bind (asks_check _ _) fun _ _ => ?_
    refine asks_bind (hcall _) fun _ _ => asks_bind (asks_check _ _) fun _ _ => ?_
    exact htame (changeDirectoryOuter_tame _ _)
  refine asks_bind henter fun _ _ => ?_
  refine asks_bind (htame (changeDirectoryOuter_tame _ _)) fun _ _ => ?_
  refine asks_bind (htame (asks_each fun identity _ => applyIdentity_tame identity)) fun _ _ => ?_
  refine asks_bind (asks_expect _ (h.imp_right Config.Furnished.command)) fun program _ => ?_
  exact asks_bind (hcall _) fun _ _ => asks_any (asks_check _ _)

end Linux

/-! ### The endings -/

variable {sha256 : Bytes → Bytes} {written : Line → Bool} {arguments : List Bytes}
  {history : List Event} {exit : Exit}

/-- A text is printed and the program goes on, or it cannot be written. -/
theorem printing_cases (written : Line → Bool) (line : Line) (exit : Exit) :
    (written line = true ∧ printing written line exit = exit) ∨
      written line = false ∧ printing written line exit = .unwritten line := by
  cases hline : written line with
  | true => exact Or.inl ⟨rfl, by rw [printing, hline, if_pos rfl]⟩
  | false => exact Or.inr ⟨rfl, by rw [printing, hline, if_neg Bool.false_ne_true]⟩

/-- A course of `main` is one of the run. -/
theorem course_handle {t : Linux Unit} {u : Linux Exit} (h : Course (handle written t) history u) :
    ∃ t', u = handle written t' ∧ Course t history t' := by
  induction history generalizing t with
  | nil =>
    generalize hhandled : handle written t = last at h
    cases h
    exact ⟨t, hhandled.symm, .nil t⟩
  | cons event history ih =>
    match t with
    | .pure () => cases h
    | .fail (.error error) => cases h
    | .fail .panic => cases h
    | .op o next =>
      cases h with
      | cons hrest =>
        obtain ⟨t', hlast, hcourse⟩ := ih hrest
        exact ⟨t', hlast, .cons hcourse⟩

/-- A run of accepted arguments fails, or it becomes the command when all is done. -/
theorem handle_ends {config : Config} (hparsed : parseArgs arguments = .ok config)
    (h : Course (handle written (Linux.run sha256 config)) history (.pure exit)) :
    (∃ error, exit = printing written (.failure error) (.failed error)) ∨
      exit = .replaced ∧ Became sha256 config history := by
  obtain ⟨t, hlast, hcourse⟩ := course_handle h
  match t with
  | .pure () =>
    cases hlast
    have hmeets := meets_course (Linux.run_meets sha256 config) hcourse
    rw [conduct, Monitor.along_chronicle] at hmeets
    exact Or.inr ⟨rfl, hmeets⟩
  | .fail (.error error) =>
    cases hlast
    exact Or.inl ⟨error, rfl⟩
  | .fail .panic =>
    obtain ⟨haccepted, -⟩ := accepted_of_parseArgs hparsed
    have hsound := asks_course (Linux.run_asks sha256 (E := Linux.Sound)
      (Or.inr (furnished_of_accepted haccepted))) hcourse
    exact absurd rfl hsound
  | .op o next => cases hlast

theorem ending_help : Ending sha256 written arguments [] (printing written .usage .help) := by
  rcases printing_cases written .usage .help with ⟨hline, heq⟩ | ⟨hline, heq⟩
  · rw [heq]
    exact ⟨rfl, hline⟩
  · rw [heq]
    exact ⟨hline, rfl⟩

theorem ending_version :
    Ending sha256 written arguments [] (printing written .version .version) := by
  rcases printing_cases written .version .version with ⟨hline, heq⟩ | ⟨hline, heq⟩
  · rw [heq]
    exact ⟨rfl, hline⟩
  · rw [heq]
    exact ⟨hline, rfl⟩

theorem ending_refused {error : ConfigError} (h : parseArgs arguments = .error (.error error)) :
    Ending sha256 written arguments [] (printing written (.invalidArguments error)
      (printing written .tryHelp (.refused error))) := by
  rcases printing_cases written (.invalidArguments error)
    (printing written .tryHelp (.refused error)) with ⟨hfirst, heq⟩ | ⟨hfirst, heq⟩
  · rw [heq]
    rcases printing_cases written .tryHelp (.refused error) with ⟨hsecond, heq⟩ | ⟨hsecond, heq⟩
    · rw [heq]
      exact ⟨rfl, h, hfirst, hsecond⟩
    · rw [heq]
      exact ⟨hsecond, rfl, error, h⟩
  · rw [heq]
    exact ⟨hfirst, rfl, h⟩

theorem ending_failed {config : Config} (error : RuntimeError)
    (h : parseArgs arguments = .ok config) :
    Ending sha256 written arguments history (printing written (.failure error) (.failed error)) := by
  rcases printing_cases written (.failure error) (.failed error) with ⟨hline, heq⟩ | ⟨hline, heq⟩
  · rw [heq]
    exact ⟨⟨config, h⟩, hline⟩
  · rw [heq]
    exact ⟨hline, config, h⟩

/-- However the kernel answers, sandrun panics only in printing a text that cannot be written; it
asks for nothing else where it refuses its arguments, and it becomes the command behind the
separator when all that was asked for is done. -/
theorem main_ends (h : Course (main sha256 written arguments) history (.pure exit)) :
    Ending sha256 written arguments history exit := by
  unfold main at h
  split_ifs at h with hhelp hversion
  · cases h
    exact ending_help
  · cases h
    exact ending_version
  · cases hparsed : parseArgs arguments with
    | error failure =>
      rw [hparsed] at h
      cases failure with
      | error error =>
        cases h
        exact ending_refused hparsed
      | panic => exact absurd hparsed (noPanic_parseArgs arguments)
    | ok config =>
      rw [hparsed] at h
      rcases handle_ends hparsed h with ⟨error, rfl⟩ | ⟨rfl, hbecame⟩
      · exact ending_failed error hparsed
      · exact ⟨config, hparsed, (accepted_of_parseArgs hparsed).2, hbecame⟩

/-- The status tells how far sandrun has come. -/
theorem main_status (h : Course (main sha256 written arguments) history (.pure exit)) {status : ℕ}
    (hstatus : exit.status = some status) :
    (status = 0 ∨ status = 2) ∧ history = [] ∨
      status = 125 ∧ ∃ config, parseArgs arguments = .ok config := by
  have hends := main_ends h
  cases exit with
  | help =>
    obtain rfl := Option.some.inj hstatus
    exact Or.inl ⟨Or.inl rfl, hends.1⟩
  | version =>
    obtain rfl := Option.some.inj hstatus
    exact Or.inl ⟨Or.inl rfl, hends.1⟩
  | refused error =>
    obtain rfl := Option.some.inj hstatus
    exact Or.inl ⟨Or.inr rfl, hends.1⟩
  | failed error =>
    obtain rfl := Option.some.inj hstatus
    exact Or.inr ⟨rfl, hends.1⟩
  | panicked => cases hstatus
  | unwritten line => cases hstatus
  | replaced => cases hstatus

/-- Where all texts can be written, there is no panic. -/
theorem main_noPanic (hwritten : ∀ line, written line = true)
    (h : Course (main sha256 written arguments) history (.pure exit)) :
    exit ≠ .panicked ∧ ∀ line, exit ≠ .unwritten line := by
  have hends := main_ends h
  refine ⟨?_, ?_⟩
  · rintro rfl
    exact hends
  · rintro line rfl
    obtain ⟨hunwritten, -⟩ := hends
    rw [hwritten line] at hunwritten
    cases hunwritten

def shellArguments : List Bytes := [lit "--rootfs", lit "/srv/rootfs", lit "--", lit "/bin/sh"]

theorem main_ends_shell : ∃ history, history.length = 28 ∧
    Ending id (fun _ => true) shellArguments history .replaced := by
  have hcourse := course_play Linux.agreeable 28 (main id (fun _ => true) shellArguments)
  have hlast : (play Linux.agreeable 28 (main id (fun _ => true) shellArguments)).2 =
      .pure .replaced := eq_pure_of_returned (by decide +kernel)
  rw [hlast] at hcourse
  exact ⟨_, by decide +kernel, main_ends hcourse⟩

end Sandcamp.Sandrun
