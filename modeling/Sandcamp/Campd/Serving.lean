import Sandcamp.Foundations.Monitors
import Sandcamp.Campd.Ready
import Sandcamp.Campd.Supervisor

/-!
# The thread of the ready endpoint (ready.rs:72-115)

The thread takes one connection at a time, looks at the flag that the supervisor keeps and answers
the first read of the request with it. The flag is looked at before the request is read, so that an
answer is as old as the wait for the request, a second at most.
-/

namespace Sandcamp.Campd
open Foundations
open Thread (meets_ask meets_bind allows_course)

inductive Accepted where
  | connection
  | wouldBlock
  | failed
  deriving DecidableEq

inductive ServeCall where
  | loadShutdown
  | accept
  | loadReady
  | setReadTimeout (timeout : ℕ)
  | setWriteTimeout (timeout : ℕ)
  | read (room : ℕ)
  | writeAll (response : Bytes)
  | sleep (duration : ℕ)
  deriving DecidableEq

/-- What `let _ =` throws away has no answer. -/
abbrev ServeCall.Answer : ServeCall → Type
  | .loadShutdown | .loadReady => Bool
  | .accept => Accepted
  | .read room => Option { bytes : Bytes // bytes.length ≤ room }
  | _ => Unit

abbrev ServeThread (α : Type) : Type := Thread ServeCall ServeCall.Answer Unit α

def serveCall (o : ServeCall) : ServeThread o.Answer := Thread.perform o

/-- `respond` with its connection (`ready.rs:87-115`); `respond` is what it answers. -/
def respondTo (ready : Bool) : ServeThread Unit := do
  serveCall (.setReadTimeout (1000 * millisecond))
  serveCall (.setWriteTimeout (1000 * millisecond))
  match ← serveCall (.read requestBytes) with
  | none => pure ()
  | some ⟨request, _⟩ => serveCall (.writeAll (respond ready [request]).response)

/-- `serve` (`ready.rs:72-85`), watched for so many rounds. -/
def serve : ℕ → ServeThread Unit
  | 0 => .fail ()
  | rounds + 1 => do
    if ← serveCall .loadShutdown then pure ()
    else
      match ← serveCall .accept with
      | .connection =>
        let ready ← serveCall .loadReady
        respondTo ready
      | .wouldBlock => serveCall (.sleep (20 * millisecond))
      | .failed => serveCall (.sleep (100 * millisecond))
      serve rounds

/-! ### What is answered -/

/-- A call with its answer. -/
abbrev ServeStep : Type := Σ o, ServeCall.Answer o

/-- A connection is taken, the flag looked at and the request read. -/
def exchange (ready : Bool) (request : { bytes : Bytes // bytes.length ≤ requestBytes }) :
    List ServeStep :=
  [⟨.accept, .connection⟩, ⟨.loadReady, ready⟩, ⟨.setReadTimeout (1000 * millisecond), ()⟩,
    ⟨.setWriteTimeout (1000 * millisecond), ()⟩, ⟨.read requestBytes, some request⟩]

/-- An answer comes right behind an exchange, with the flag and the request of that. -/
def Serves (history : List ServeStep) : ServeCall → Prop
  | .writeAll response => ∃ earlier ready request, history = earlier ++ exchange ready request ∧
      response = (respond ready [request.1]).response
  | _ => True

/-- Nothing comes behind a shutdown. -/
def Unstopped (history : List ServeStep) : Prop :=
  (⟨.loadShutdown, true⟩ : ServeStep) ∉ history

def serveProtocol : Monitor (List ServeStep) ServeCall ServeCall.Answer :=
  .chronicle fun history o => Unstopped history ∧ Serves history o

theorem Unstopped.snoc {history : List ServeStep} (h : Unstopped history) (step : ServeStep)
    (hstep : step ≠ ⟨.loadShutdown, true⟩) : Unstopped (history ++ [step]) := by
  intro hmem
  rcases List.mem_append.mp hmem with hmem | hmem
  · exact h hmem
  · exact hstep (List.mem_singleton.mp hmem).symm

theorem respondTo_meets (ready : Bool) (earlier : List ServeStep) (h : Unstopped earlier) :
    (respondTo ready).Meets serveProtocol
      (earlier ++ [⟨.accept, .connection⟩] ++ [⟨.loadReady, ready⟩]) fun _ => Unstopped := by
  have hlooked := (h.snoc ⟨.accept, .connection⟩ (by simp)).snoc ⟨.loadReady, ready⟩ (by simp)
  refine meets_ask ⟨hlooked, trivial⟩ fun _ => ?_
  have hread := hlooked.snoc ⟨.setReadTimeout (1000 * millisecond), ()⟩ (by simp)
  refine meets_ask ⟨hread, trivial⟩ fun _ => ?_
  have hwrite := hread.snoc ⟨.setWriteTimeout (1000 * millisecond), ()⟩ (by simp)
  refine meets_ask ⟨hwrite, trivial⟩ fun read => ?_
  have hanswered := hwrite.snoc ⟨.read requestBytes, read⟩ (by simp)
  cases read with
  | none => exact hanswered
  | some request =>
    refine ⟨⟨hanswered, earlier, ready, request, ?_, rfl⟩, fun _ => ?_⟩
    · simp [serveProtocol, Monitor.chronicle, exchange]
    · exact hanswered.snoc _ (by simp)

theorem serve_meets (rounds : ℕ) (history : List ServeStep) (h : Unstopped history) :
    (serve rounds).Meets serveProtocol history fun _ _ => True := by
  induction rounds generalizing history with
  | zero => trivial
  | succ rounds ih =>
    refine meets_ask ⟨h, trivial⟩ fun shutdown => ?_
    cases shutdown with
    | true => trivial
    | false =>
      have hlooked := h.snoc ⟨.loadShutdown, false⟩ (by simp)
      refine meets_ask ⟨hlooked, trivial⟩ fun accepted => ?_
      have haccepted := hlooked.snoc ⟨.accept, accepted⟩ (by simp)
      cases accepted with
      | connection =>
        refine meets_ask ⟨haccepted, trivial⟩ fun ready => ?_
        refine meets_bind (respondTo_meets ready _ hlooked) ?_
        exact fun _ _ hanswered => ih _ hanswered
      | wouldBlock =>
        exact meets_ask ⟨haccepted, trivial⟩ fun _ => ih _ (haccepted.snoc _ (by simp))
      | failed =>
        exact meets_ask ⟨haccepted, trivial⟩ fun _ => ih _ (haccepted.snoc _ (by simp))

/-! ### Whole courses -/

/-- What the thread of the ready endpoint does, however it is answered. -/
structure Serving (history : List ServeStep) : Prop where
  answered : ∀ before response after,
    history = before ++ (⟨.writeAll response, ()⟩ : ServeStep) :: after →
    ∃ earlier ready request, before = earlier ++ exchange ready request ∧
      response = (respond ready [request.1]).response
  stopped : ∀ before after, history = before ++ (⟨.loadShutdown, true⟩ : ServeStep) :: after →
    after = []

theorem along_chronicle_nil (history : List ServeStep) : serveProtocol.along [] history = history :=
  Monitor.along_chronicle [] history

theorem serve_serving {rounds : ℕ} {history : List ServeStep} {thread : ServeThread Unit}
    (h : Thread.Course (serve rounds) history thread) : Serving history := by
  have hallows := allows_course (serve_meets rounds [] (by simp [Unstopped])) h
  constructor
  · rintro before response after rfl
    have hallowed := (Monitor.allows_append.mp hallows).2.1
    rw [along_chronicle_nil] at hallowed
    exact hallowed.2
  · rintro before after rfl
    cases after with
    | nil => rfl
    | cons step rest =>
      have hnext := (Monitor.allows_append.mp hallows).2.2.1
      rw [along_chronicle_nil] at hnext
      exact absurd (List.mem_append_right before List.mem_cons_self) hnext.1

/-- A client that asks while the flag is set. -/
def oneClient : (o : ServeCall) → o.Answer
  | .loadShutdown => false
  | .accept => .connection
  | .loadReady => true
  | .read room =>
    if h : 23 ≤ room then some ⟨lit "GET /ready HTTP/1.1\r\n\r\n", h⟩ else none
  | .setReadTimeout _ | .setWriteTimeout _ | .writeAll _ | .sleep _ => ()

theorem serve_serving_client :
    let course := Thread.play oneClient 7 (serve 1)
    Serving course.1 ∧ (course.1.map (·.1)).getLast? =
      some (.writeAll (ReadyAnswer.response ⟨lit "200 OK", lit "ready\n"⟩)) :=
  ⟨serve_serving (Thread.course_play oneClient 7 (serve 1)), by decide⟩

end Sandcamp.Campd
