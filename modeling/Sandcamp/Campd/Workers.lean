import Sandcamp.Foundations.Monitors
import Sandcamp.Campd.Health
import Sandcamp.Campd.HttpProbe
import Sandcamp.Campd.Supervisor

/-!
# The thread of a probe (runtime.rs:913-1011)

A probe thread asks its surroundings for one thing at a time: the flag that cancels it, the clock,
its connection, the channel. Whatever they answer, it keeps to `probeProtocol`: no call waits beyond
the deadline of its attempt, what it reports is what the attempt has read, and one report at most
comes after its cancellation.
-/

namespace Sandcamp.Campd
open Foundations
open Thread (meets_ask meets_bind)

inductive ProbeCall where
  | loadCancel
  | now
  | connect (port : UInt16) (timeout : ℕ)
  | setWriteTimeout (timeout : ℕ)
  | writeAll (request : Bytes)
  | setReadTimeout (timeout : ℕ)
  | read (room : ℕ)
  | send (success : Bool)
  | sleep (duration : ℕ)
  deriving DecidableEq

/-- Instants are in nanoseconds; a failed `read` is `none`, another one fits into its buffer. -/
abbrev ProbeCall.Answer : ProbeCall → Type
  | .now => ℕ
  | .read room => Option { bytes : Bytes // bytes.length ≤ room }
  | .sleep _ => Unit
  | _ => Bool

/-- A failure is where the model watches no further: the rounds of a loop are given. -/
abbrev ProbeThread (α : Type) : Type := Thread ProbeCall ProbeCall.Answer Unit α

def probeCall (o : ProbeCall) : ProbeThread o.Answer := Thread.perform o

/-- `remaining_until` (`runtime.rs:997-1000`). -/
def remainingUntil (deadline : ℕ) : ProbeThread (Option ℕ) := do
  let now ← probeCall .now
  let remaining := deadline - now
  pure (if remaining = 0 then none else some remaining)

/-- The loop that reads the status line (`runtime.rs:962-984`). A read takes a place of the buffer
at least, so that `responseBytes` rounds are enough. -/
def readLine (deadline : ℕ) : ℕ → Bytes → ProbeThread (Option Bytes)
  | 0, _ => .fail ()
  | rounds + 1, response => do
    match ← remainingUntil deadline with
    | none => pure none
    | some timeout =>
      if ← probeCall (.setReadTimeout timeout) then
        match ← probeCall (.read (responseBytes - response.length)) with
        | none => pure none
        | some ⟨read, _⟩ =>
          if read = [] then pure none
          else
            let response := response ++ read
            match response.findIdx? (· == newline) with
            | some lineEnd => pure (some (response.take lineEnd))
            | none =>
              if response.length = responseBytes then pure none
              else readLine deadline rounds response
      else pure none

/-- `http_probe` (`runtime.rs:941-995`). -/
def httpProbe (probe : Probe) (deadline : ℕ) : ProbeThread Bool := do
  match ← remainingUntil deadline with
  | none => pure false
  | some timeout =>
    if ← probeCall (.connect probe.port timeout) then
      match ← remainingUntil deadline with
      | none => pure false
      | some timeout =>
        if ← probeCall (.setWriteTimeout timeout) then
          if ← probeCall (.writeAll (probeRequest probe)) then
            match ← readLine deadline responseBytes [] with
            | none => pure false
            | some line => pure (statusAccepted line)
          else pure false
        else pure false
    else pure false

/-- The loop of `sleep_with_cancel` (`runtime.rs:1004-1010`). -/
def sleepUntil (deadline : ℕ) : ℕ → ProbeThread Unit
  | 0 => .fail ()
  | rounds + 1 => do
    if ← probeCall .loadCancel then pure ()
    else
      let now ← probeCall .now
      let remaining := deadline - now
      if remaining = 0 then pure ()
      else
        probeCall (.sleep (min remaining pollInterval))
        sleepUntil deadline rounds

/-- `sleep_with_cancel` (`runtime.rs:1002-1011`). -/
def sleepWithCancel (rounds duration : ℕ) : ProbeThread Unit := do
  let now ← probeCall .now
  sleepUntil (now + duration) rounds

/-- The thread of `spawn_probe_worker` (`runtime.rs:922-937`). -/
def probeWorker (probe : Probe) : ℕ → ProbeThread Unit
  | 0 => .fail ()
  | rounds + 1 => do
    if ← probeCall .loadCancel then pure ()
    else
      let now ← probeCall .now
      let success ← httpProbe probe (now + probe.timeoutMs.toNat * millisecond)
      if ← probeCall (.send success) then
        sleepWithCancel rounds (probe.periodMs.toNat * millisecond)
        probeWorker probe rounds
      else pure ()

/-! ### The protocol -/

/-- What a probe thread knows of a running attempt. -/
structure Attempt where
  deadline : ℕ
  /-- When it last asked for the time. -/
  clock : ℕ
  /-- Until when the next call on the connection waits. -/
  limit : Option ℕ
  connected : Bool
  requested : Bool
  reads : List Bytes

inductive ProbePhase where
  | head
  | starting
  | attempting (attempt : Attempt)
  | reported
  | resting (wake : ℕ)
  | stopped

/-- A timeout that ends by the deadline and is not zero. -/
def Attempt.Within (attempt : Attempt) (timeout : ℕ) : Prop :=
  0 < timeout ∧ attempt.clock + timeout ≤ attempt.deadline

/-- A call on the connection waits no longer than to the deadline. -/
def Attempt.Limited (attempt : Attempt) : Prop :=
  ∃ limit, attempt.limit = some limit ∧ limit ≤ attempt.deadline

def Attempt.allowed (probe : Probe) (attempt : Attempt) : ProbeCall → Prop
  | .now => True
  | .connect port timeout =>
    attempt.connected = false ∧ port = probe.port ∧ attempt.Within timeout
  | .setWriteTimeout timeout => attempt.connected = true ∧ attempt.Within timeout
  | .writeAll request =>
    attempt.connected = true ∧ attempt.Limited ∧ request = probeRequest probe
  | .setReadTimeout timeout => attempt.requested = true ∧ attempt.Within timeout
  | .read room => attempt.requested = true ∧ attempt.Limited ∧
      room + attempt.reads.flatten.length = responseBytes ∧ 0 < room
  | .send success => success = probeVerdict attempt.reads
  | _ => False

def Attempt.after (attempt : Attempt) : (o : ProbeCall) → o.Answer → Attempt
  | .now, now => { attempt with clock := now }
  | .connect .., ok => { attempt with connected := ok }
  | .setWriteTimeout timeout, ok | .setReadTimeout timeout, ok =>
    { attempt with limit := if ok then some (attempt.clock + timeout) else none }
  | .writeAll _, ok => { attempt with requested := ok, limit := none }
  | .read _, read =>
    { attempt with reads := attempt.reads ++ (read.map (·.1)).toList, limit := none }
  | _, _ => attempt

/-- A round of a probe thread: unless cancelled it makes an attempt, reports what the attempt has
read and rests for a period. -/
def probeProtocol (probe : Probe) : Monitor ProbePhase ProbeCall ProbeCall.Answer where
  allowed
    | .head, o => o = .loadCancel
    | .starting, o | .reported, o => o = .now
    | .attempting attempt, o => attempt.allowed probe o
    | .resting _, .loadCancel | .resting _, .now => True
    | .resting _, .sleep duration => 0 < duration ∧ duration ≤ pollInterval
    | _, _ => False
  after
    | .head, .loadCancel, cancelled => if cancelled then .stopped else .starting
    | .starting, .now, now => .attempting
        ⟨now + probe.timeoutMs.toNat * millisecond, now, none, false, false, []⟩
    | .attempting _, .send _, delivered => if delivered then .reported else .stopped
    | .attempting attempt, o, answer => .attempting (attempt.after o answer)
    | .reported, .now, now => .resting (now + probe.periodMs.toNat * millisecond)
    | .resting wake, .loadCancel, cancelled => if cancelled then .head else .resting wake
    | .resting wake, .now, now => if wake ≤ now then .head else .resting wake
    | phase, _, _ => phase

/-! ### An attempt -/

/-- Reads that bring no end of the line leave the loop where their bytes together leave it. -/
theorem readResponse_append (response : Bytes) (reads more : List Bytes)
    (hline : newline ∉ response ++ reads.flatten)
    (hroom : (response ++ reads.flatten).length < responseBytes) :
    (readResponse response (reads ++ more)).line =
      (readResponse (response ++ reads.flatten) more).line := by
  induction reads generalizing response with
  | nil => simp
  | cons read rest ih =>
    rw [List.flatten_cons, ← List.append_assoc] at hline hroom
    have hfree : newline ∉ response ++ read := fun hmem => hline (List.mem_append_left _ hmem)
    have hnone : (response ++ read).findIdx? (· == newline) = none := by
      rw [List.findIdx?_eq_none_iff]
      intro b hb
      simp only [beq_eq_false_iff_ne]
      exact fun heq => hfree (heq ▸ hb)
    have hpart : (response ++ read).length ≠ responseBytes := by
      rw [List.length_append] at hroom
      omega
    rw [List.cons_append, readResponse]
    simp only [hnone, if_neg hpart]
    rw [ih (response ++ read) hline hroom, List.flatten_cons, List.append_assoc]

theorem readResponse_open {reads : List Bytes} (hline : newline ∉ reads.flatten)
    (hroom : reads.flatten.length < responseBytes) : (readResponse [] reads).line = none := by
  have happend := readResponse_append [] reads [] hline hroom
  rw [List.append_nil, List.nil_append] at happend
  rw [happend]
  rfl

variable {probe : Probe}

theorem remainingUntil_meets (attempt : Attempt) :
    (remainingUntil attempt.deadline).Meets (probeProtocol probe) (.attempting attempt)
      fun remaining phase => ∃ now, phase = .attempting { attempt with clock := now } ∧
        ∀ timeout, remaining = some timeout →
          ({ attempt with clock := now } : Attempt).Within timeout := by
  refine meets_ask trivial fun (now : ℕ) => ⟨now, rfl, fun timeout htimeout => ?_⟩
  by_cases hzero : attempt.deadline - now = 0
  · rw [if_pos hzero] at htimeout
    cases htimeout
  · rw [if_neg hzero] at htimeout
    obtain rfl := Option.some.inj htimeout
    constructor
    · exact Nat.pos_of_ne_zero hzero
    · show now + (attempt.deadline - now) ≤ attempt.deadline
      omega

theorem readLine_meets (rounds : ℕ) (attempt : Attempt) (hrequested : attempt.requested = true)
    (hline : newline ∉ attempt.reads.flatten)
    (hroom : attempt.reads.flatten.length < responseBytes) :
    (readLine attempt.deadline rounds attempt.reads.flatten).Meets (probeProtocol probe)
      (.attempting attempt) fun line phase => ∃ attempt', phase = .attempting attempt' ∧
        line = (readResponse [] attempt'.reads).line := by
  induction rounds generalizing attempt with
  | zero => trivial
  | succ rounds ih =>
    have hopen := readResponse_open hline hroom
    refine meets_bind (remainingUntil_meets attempt) ?_
    rintro remaining _ ⟨now, rfl, hwithin⟩
    cases remaining with
    | none => exact ⟨_, rfl, hopen.symm⟩
    | some timeout =>
      refine meets_ask ⟨hrequested, hwithin timeout rfl⟩ fun ok => ?_
      cases ok with
      | false => exact ⟨_, rfl, hopen.symm⟩
      | true =>
        refine meets_ask ⟨hrequested, ⟨_, rfl, (hwithin timeout rfl).2⟩, ?_, ?_⟩ fun read => ?_
        · show responseBytes - attempt.reads.flatten.length + attempt.reads.flatten.length =
            responseBytes
          omega
        · show 0 < responseBytes - attempt.reads.flatten.length
          omega
        cases read with
        | none =>
          refine ⟨_, rfl, ?_⟩
          simpa [Attempt.after] using hopen.symm
        | some read =>
          obtain ⟨read, hfits⟩ := read
          have hlast := readResponse_append [] attempt.reads [read] hline hroom
          rw [List.nil_append, readResponse] at hlast
          show Thread.Meets _ (if read = [] then pure none else _) _ _
          by_cases hempty : read = []
          · rw [if_pos hempty]
            refine ⟨_, rfl, (readResponse_open ?_ ?_).symm⟩
            · simpa [Attempt.after, hempty] using hline
            · simpa [Attempt.after, hempty] using hroom
          rw [if_neg hempty]
          cases hfound : (attempt.reads.flatten ++ read).findIdx? (· == newline) with
          | some lineEnd =>
            simp only [hfound] at hlast ⊢
            exact ⟨_, rfl, hlast.symm⟩
          | none =>
            simp only [hfound] at hlast ⊢
            by_cases hfull : (attempt.reads.flatten ++ read).length = responseBytes
            · rw [if_pos hfull] at hlast ⊢
              exact ⟨_, rfl, hlast.symm⟩
            · rw [if_neg hfull]
              have hflat : attempt.reads.flatten ++ read = (attempt.reads ++ [read]).flatten := by
                simp
              rw [hflat] at hfound hfull ⊢
              refine ih { attempt with
                clock := now
                limit := none
                reads := attempt.reads ++ [read] } hrequested ?_ ?_
              · intro hmem
                have hother := List.findIdx?_eq_none_iff.mp hfound newline hmem
                simp at hother
              · have hlength := congrArg List.length hflat
                rw [List.length_append] at hlength
                show (attempt.reads ++ [read]).flatten.length < responseBytes
                omega

theorem httpProbe_meets (attempt : Attempt) (hnew : attempt.connected = false)
    (hreads : attempt.reads = []) :
    (httpProbe probe attempt.deadline).Meets (probeProtocol probe) (.attempting attempt)
      fun success phase => ∃ attempt', phase = .attempting attempt' ∧
        success = probeVerdict attempt'.reads := by
  obtain ⟨deadline, clock, limit, connected, requested, reads⟩ := attempt
  obtain rfl : reads = [] := hreads
  refine meets_bind (remainingUntil_meets _) ?_
  rintro remaining _ ⟨now, rfl, hwithin⟩
  cases remaining with
  | none => exact ⟨_, rfl, rfl⟩
  | some timeout =>
    refine meets_ask ⟨hnew, rfl, hwithin timeout rfl⟩ fun connected => ?_
    cases connected with
    | false => exact ⟨_, rfl, rfl⟩
    | true =>
      refine meets_bind (remainingUntil_meets _) ?_
      rintro remaining _ ⟨later, rfl, hlater⟩
      cases remaining with
      | none => exact ⟨_, rfl, rfl⟩
      | some timeout =>
        refine meets_ask ⟨rfl, hlater timeout rfl⟩ fun ok => ?_
        cases ok with
        | false => exact ⟨_, rfl, rfl⟩
        | true =>
          refine meets_ask ⟨rfl, ⟨_, rfl, (hlater timeout rfl).2⟩, rfl⟩ fun written => ?_
          cases written with
          | false => exact ⟨_, rfl, rfl⟩
          | true =>
            refine meets_bind (readLine_meets responseBytes
              ⟨deadline, later, none, true, true, []⟩ rfl (by simp) (by simp [responseBytes])) ?_
            rintro line _ ⟨attempt, rfl, hline⟩
            cases line with
            | none =>
              refine ⟨_, rfl, ?_⟩
              rw [probeVerdict, ← hline]
            | some line =>
              refine ⟨_, rfl, ?_⟩
              rw [probeVerdict, ← hline]

theorem sleepUntil_meets (wake rounds : ℕ) :
    (sleepUntil wake rounds).Meets (probeProtocol probe) (.resting wake)
      fun _ phase => phase = .head := by
  induction rounds with
  | zero => trivial
  | succ rounds ih =>
    refine meets_ask trivial fun cancelled => ?_
    cases cancelled with
    | true => rfl
    | false =>
      refine meets_ask trivial fun (now : ℕ) => ?_
      show Thread.Meets _ (if wake - now = 0 then pure () else _)
        (if wake ≤ now then ProbePhase.head else ProbePhase.resting wake) _
      by_cases hzero : wake - now = 0
      · rw [if_pos hzero, if_pos (Nat.le_of_sub_eq_zero hzero)]
        rfl
      · rw [if_neg hzero, if_neg fun hle => hzero (Nat.sub_eq_zero_of_le hle)]
        refine meets_ask ⟨?_, Nat.min_le_right _ _⟩ fun _ => ih
        exact lt_min (Nat.pos_of_ne_zero hzero) (by decide)

theorem probeWorker_meets (rounds : ℕ) :
    (probeWorker probe rounds).Meets (probeProtocol probe) .head
      fun _ phase => phase = .stopped := by
  induction rounds with
  | zero => trivial
  | succ rounds ih =>
    refine meets_ask rfl fun cancelled => ?_
    cases cancelled with
    | true => rfl
    | false =>
      refine meets_ask rfl fun (now : ℕ) => ?_
      refine meets_bind (httpProbe_meets ⟨_, now, none, false, false, []⟩ rfl rfl) ?_
      rintro success _ ⟨attempt, rfl, hverdict⟩
      refine meets_ask hverdict fun delivered => ?_
      cases delivered with
      | false => rfl
      | true =>
        have hrests : (sleepWithCancel rounds (probe.periodMs.toNat * millisecond)).Meets
            (probeProtocol probe) .reported fun _ phase => phase = .head :=
          meets_ask rfl fun _ => sleepUntil_meets _ rounds
        refine meets_bind hrests ?_
        rintro _ _ rfl
        exact ih

/-! ### Whole courses -/

/-- A call with its answer. -/
abbrev ProbeStep : Type := Σ o, ProbeCall.Answer o

def ProbeStep.reports : ProbeStep → Bool
  | ⟨.send _, _⟩ => true
  | _ => false

/-- Once it is set, a cancellation is what every later look at the flag finds. -/
def CancelledFrom (history : List ProbeStep) : Prop :=
  ∀ cancelled, (⟨.loadCancel, cancelled⟩ : ProbeStep) ∈ history → cancelled = true

/-- The reports that are still to come after a cancellation. -/
def ProbePhase.due : ProbePhase → ℕ
  | .starting | .attempting _ => 1
  | _ => 0

theorem due_step (phase : ProbePhase) (step : ProbeStep)
    (hallowed : (probeProtocol probe).allowed phase step.1) (hcancelled : CancelledFrom [step]) :
    (if step.reports then 1 else 0) + ((probeProtocol probe).after phase step.1 step.2).due ≤
      phase.due := by
  obtain ⟨o, answer⟩ := step
  cases phase with
  | head =>
    obtain rfl : o = .loadCancel := hallowed
    obtain rfl : answer = true := hcancelled answer List.mem_cons_self
    exact le_rfl
  | starting =>
    obtain rfl : o = .now := hallowed
    exact le_rfl
  | attempting attempt =>
    cases o with
    | send success =>
      cases answer with
      | false => exact le_rfl
      | true => exact le_rfl
    | _ => exact le_rfl
  | reported =>
    obtain rfl : o = .now := hallowed
    exact le_rfl
  | resting wake =>
    cases o with
    | loadCancel =>
      obtain rfl : answer = true := hcancelled answer List.mem_cons_self
      exact le_rfl
    | now =>
      show 0 + (if wake ≤ _ then ProbePhase.head else ProbePhase.resting wake).due ≤ 0
      split <;> exact le_rfl
    | sleep duration => exact le_rfl
    | _ => exact absurd hallowed id
  | stopped => exact absurd hallowed id

theorem reports_le_due (phase : ProbePhase) (history : List ProbeStep)
    (hallows : (probeProtocol probe).Allows phase history) (hcancelled : CancelledFrom history) :
    history.countP ProbeStep.reports ≤ phase.due := by
  induction history generalizing phase with
  | nil => exact Nat.zero_le _
  | cons step rest ih =>
    obtain ⟨hallowed, hrest⟩ := hallows
    have hstep := due_step phase step hallowed fun cancelled hmem =>
      hcancelled cancelled (List.mem_cons.mpr (Or.inl (List.mem_singleton.mp hmem)))
    have hlater := ih _ hrest fun cancelled hmem =>
      hcancelled cancelled (List.mem_cons_of_mem _ hmem)
    rw [List.countP_cons]
    omega

/-- What a probe thread does, however it is answered. -/
structure Probes (probe : Probe) (history : List ProbeStep) (thread : ProbeThread Unit) :
    Prop where
  conforms : (probeProtocol probe).Allows .head history
  reported : ∀ before success delivered after,
    history = before ++ (⟨.send success, delivered⟩ : ProbeStep) :: after →
    ∃ attempt, (probeProtocol probe).along .head before = .attempting attempt ∧
      success = probeVerdict attempt.reads
  cancelled : ∀ before after, history = before ++ after → CancelledFrom after →
    after.countP ProbeStep.reports ≤ 1
  ended : thread.returned = some () → (probeProtocol probe).along .head history = .stopped

theorem probeWorker_probes {rounds : ℕ} {history : List ProbeStep} {thread : ProbeThread Unit}
    (h : Thread.Course (probeWorker probe rounds) history thread) :
    Probes probe history thread := by
  have hallows := Thread.allows_course (probeWorker_meets rounds) h
  constructor
  · exact hallows
  · rintro before success delivered after rfl
    obtain ⟨hallowed, -⟩ := (Monitor.allows_append.mp hallows).2
    cases hphase : (probeProtocol probe).along .head before with
    | attempting attempt =>
      rw [hphase] at hallowed
      exact ⟨attempt, rfl, hallowed⟩
    | head | starting | reported =>
      rw [hphase] at hallowed
      cases hallowed
    | resting _ | stopped =>
      rw [hphase] at hallowed
      exact absurd hallowed id
  · rintro before after rfl hcancelled
    have hdue : ∀ phase : ProbePhase, phase.due ≤ 1 := by
      intro phase
      cases phase <;> simp [ProbePhase.due]
    exact (reports_le_due _ after (Monitor.allows_append.mp hallows).2 hcancelled).trans (hdue _)
  · intro hreturned
    have hlast : thread.Meets (probeProtocol probe) ((probeProtocol probe).along .head history)
        fun _ phase => phase = .stopped := Thread.meets_course (probeWorker_meets rounds) h
    rw [Thread.eq_pure_of_returned hreturned] at hlast
    exact hlast

/-- A server that answers at once, in one read, and a clock that stands still. -/
def promptServer : (o : ProbeCall) → o.Answer
  | .loadCancel => false
  | .now => 0
  | .read room =>
    if h : 16 ≤ room then some ⟨lit "HTTP/1.1 204 OK\n", h⟩ else none
  | .sleep _ => ()
  | .connect .. | .setWriteTimeout _ | .writeAll _ | .setReadTimeout _ | .send _ => true

theorem probeWorker_probes_prompt :
    let course := Thread.play promptServer 11 (probeWorker flappingProbe 2)
    Probes flappingProbe course.1 course.2 ∧
      (course.1.map (·.1)).getLast? = some (.send true) :=
  ⟨probeWorker_probes (Thread.course_play promptServer 11 (probeWorker flappingProbe 2)),
    by decide⟩

/-! ### What makes a probe ready -/

/-- The reports, in their order. -/
def reportsOf (history : List ProbeStep) : List Bool :=
  history.filterMap fun step => match step with
    | ⟨.send success, _⟩ => some success
    | _ => none

def ProbePhase.reads : ProbePhase → List Bytes
  | .attempting attempt => attempt.reads
  | _ => []

/-- What the attempt behind each report has read. -/
def attemptsOf (probe : Probe) : ProbePhase → List ProbeStep → List (List Bytes)
  | _, [] => []
  | phase, step :: rest =>
    let later := attemptsOf probe ((probeProtocol probe).after phase step.1 step.2) rest
    if step.reports then phase.reads :: later else later

theorem reportsOf_eq (phase : ProbePhase) (history : List ProbeStep)
    (hallows : (probeProtocol probe).Allows phase history) :
    reportsOf history = (attemptsOf probe phase history).map probeVerdict := by
  induction history generalizing phase with
  | nil => rfl
  | cons step rest ih =>
    obtain ⟨hallowed, hrest⟩ := hallows
    have hlater := ih _ hrest
    obtain ⟨o, answer⟩ := step
    cases o with
    | send success =>
      have hverdict : success = probeVerdict phase.reads := by
        cases phase with
        | attempting attempt => exact hallowed
        | head | starting | reported => cases hallowed
        | resting _ | stopped => exact absurd hallowed id
      have hreports : ProbeStep.reports ⟨.send success, answer⟩ = true := rfl
      rw [attemptsOf, if_pos hreports, List.map_cons, ← hlater, ← hverdict]
      rfl
    | _ => exact hlater

theorem line_of_verdict {reads : List Bytes} (h : probeVerdict reads = true) :
    ∃ line, (readResponse [] reads).line = some line ∧ StatusLine line := by
  unfold probeVerdict at h
  cases hline : (readResponse [] reads).line with
  | none =>
    rw [hline] at h
    cases h
  | some line =>
    rw [hline] at h
    exact ⟨line, rfl, (statusAccepted_iff line).mp h⟩

/-- A probe is ready only behind so many attempts in a row that each have read a status line
that is accepted, with no run of failures since. -/
theorem ready_of_course {rounds : ℕ} {history : List ProbeStep} {thread : ProbeThread Unit}
    (hs : probe.successThreshold ≠ 0) (hf : probe.failureThreshold ≠ 0)
    (h : Thread.Course (probeWorker probe rounds) history thread)
    (hready : (probeAfter probe (reportsOf history)).health = .ready) :
    ∃ n, probe.successThreshold.toNat ≤ n ∧
      (∀ i, n - probe.successThreshold.toNat ≤ i → i < n → ∃ reads line,
        (attemptsOf probe .head history)[i]? = some reads ∧
        (readResponse [] reads).line = some line ∧ StatusLine line) ∧
      ∀ m, n < m → ¬WindowEnds false probe.failureThreshold.toNat m (reportsOf history) := by
  obtain ⟨-, hhealth⟩ := probeAfter_health probe hs hf (reportsOf history)
  rw [hready] at hhealth
  obtain ⟨n, ⟨hsize, -, hwindow⟩, hlast⟩ := hhealth
  refine ⟨n, hsize, fun i hfirst hi => ?_, fun m hm hends => hlast m hm (Or.inr hends)⟩
  have hreport := hwindow i hfirst hi
  rw [reportsOf_eq .head history (Thread.allows_course (probeWorker_meets rounds) h),
    List.getElem?_map] at hreport
  obtain ⟨reads, hreads, hverdict⟩ := Option.map_eq_some_iff.mp hreport
  obtain ⟨line, hline, hstatus⟩ := line_of_verdict hverdict
  exact ⟨reads, line, hreads, hline, hstatus⟩

/-- One success is enough. -/
def eagerProbe : Probe := { flappingProbe with successThreshold := 1 }

theorem ready_of_course_prompt :
    let history := (Thread.play promptServer 11 (probeWorker eagerProbe 2)).1
    ∃ n, 1 ≤ n ∧
      (∀ i, n - 1 ≤ i → i < n → ∃ reads line,
        (attemptsOf eagerProbe .head history)[i]? = some reads ∧
        (readResponse [] reads).line = some line ∧ StatusLine line) ∧
      ∀ m, n < m → ¬WindowEnds false 2 m (reportsOf history) :=
  @ready_of_course eagerProbe 2 _ _ (by decide) (by decide)
    (Thread.course_play promptServer 11 (probeWorker eagerProbe 2)) (by decide)

end Sandcamp.Campd
