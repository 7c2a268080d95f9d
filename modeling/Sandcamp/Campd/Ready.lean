import Sandcamp.Foundations.Text
import Sandcamp.Campd.Spec

/-!
# The ready endpoint (ready.rs:72-115)

`respond` reads a request once and answers what the bytes of that read say. TCP may cut
the request anywhere, so the answer is the one its request line calls for exactly when
the first read carries the whole line, or is cut where the words `GET /ready` are decided
already: for a line that asks for it, at the end of the path or behind the blank that
follows it; for another line, anywhere but right behind these two words.
-/

namespace Sandcamp.Campd
open Foundations Foundations.Text

/-! ### The answer -/

structure ReadyAnswer where
  status : Bytes
  body : Bytes
  deriving DecidableEq

/-- The first two words are `GET` and `/ready` (`ready.rs:99-101`). -/
def asksText (text : List Bytes) : Bool :=
  let parts := splitWhitespace text
  let method := parts[0]?.getD []
  let path := parts[1]?.getD []
  !(decide (method ≠ lit "GET" ∨ path ≠ lit "/ready"))

def readyAnswer (ready asked : Bool) : ReadyAnswer :=
  if asked = false then ⟨lit "404 Not Found", lit "not found\n"⟩
  else if ready then ⟨lit "200 OK", lit "ready\n"⟩
  else ⟨lit "503 Service Unavailable", lit "unready\n"⟩

/-- `request` is the buffer of the one `read` call. -/
def requestBytes : ℕ := 1024

/-- `respond` (`ready.rs:87-115`), on the reads in which the request comes: the first one is
read, the others stay in the socket. -/
def respond (ready : Bool) (reads : List Bytes) : ReadyAnswer :=
  let request := reads.head?.getD []
  readyAnswer ready (asksText (firstLine (fromUtf8Lossy request)))

/-- What is written back. -/
def ReadyAnswer.response (answer : ReadyAnswer) : Bytes :=
  lit "HTTP/1.1 " ++ answer.status ++
    lit "\r\nContent-Type: text/plain\r\nContent-Length: " ++ decimal answer.body.length ++
    lit "\r\nConnection: close\r\n\r\n" ++ answer.body

/-- The status a request line calls for. -/
def statusFor (ready : Bool) (line : Bytes) : Bytes :=
  (readyAnswer ready (asksText (fromUtf8Lossy line))).status

/-! ### The request line -/

theorem plainWord_get : PlainWord (lit "GET") := by
  unfold PlainWord
  decide +kernel

theorem plainWord_ready : PlainWord (lit "/ready") := by
  unfold PlainWord
  decide +kernel

theorem asksText_iff (text : List Bytes) :
    asksText text = true ↔ ∃ more, splitWhitespace text = lit "GET" :: lit "/ready" :: more := by
  have hget : lit "GET" ≠ [] := by decide
  have hready : lit "/ready" ≠ [] := by decide
  unfold asksText
  generalize splitWhitespace text = parts
  rcases parts with _ | ⟨method, _ | ⟨path, more⟩⟩
  · simp [hget.symm]
  · simp [hready.symm]
  · simp

/-- The bytes up to the end of the path, in a request for `/ready`. -/
def ReadyHead (head : Bytes) : Prop := TwoWords (lit "GET") (lit "/ready") head

def AsksReady (line : Bytes) : Prop :=
  ∃ head tail, ReadyHead head ∧ Separated tail ∧ line = head ++ tail

theorem asksReady_iff (line : Bytes) : asksText (fromUtf8Lossy line) = true ↔ AsksReady line := by
  rw [asksText_iff]
  exact splitWhitespace_twoWords _ _ line plainWord_get plainWord_ready

theorem newline_not_mem (line : Bytes) (h : newline ∉ line) : [newline] ∉ fromUtf8Lossy line := by
  intro hm
  rcases bytes_of_mem line _ hm with heq | hall
  · cases heq
  · exact h (hall newline List.mem_cons_self)

theorem takeWhile_line (text rest : List Bytes) (h : [newline] ∉ text) :
    (text ++ rest).takeWhile (· ≠ [newline]) = text ++ rest.takeWhile (· ≠ [newline]) := by
  apply List.takeWhile_append_of_pos
  intro c hc
  simp only [ne_eq, decide_not, Bool.not_eq_eq_eq_not, Bool.not_true, decide_eq_false_iff_not]
  intro heq
  exact h (heq ▸ hc)

theorem asksText_whole (line more : Bytes) (h : newline ∉ line) :
    asksText (firstLine (fromUtf8Lossy (line ++ newline :: more))) =
      asksText (fromUtf8Lossy line) := by
  have hreturn : ∀ text : List Bytes, asksText (text ++ [[0x0D]]) = asksText text := by
    intro text
    unfold asksText
    rw [splitWhitespace_append_blank text _ (by decide)]
  have hwhile : (fromUtf8Lossy (line ++ newline :: more)).takeWhile (· ≠ [newline]) =
      fromUtf8Lossy line := by
    rw [fromUtf8Lossy_append_ascii line newline more (by decide),
      takeWhile_line _ _ (newline_not_mem line h)]
    simp
  unfold firstLine
  rw [hwhile]
  dsimp only
  split_ifs with hlast
  · have hsplit := List.dropLast_append_getLast? _ hlast.2
    rw [← hreturn, hsplit]
  · rfl

theorem asksText_part (first : Bytes) (h : newline ∉ first) :
    asksText (firstLine (fromUtf8Lossy first)) = asksText (fromUtf8Lossy first) := by
  have hwhile := takeWhile_line (fromUtf8Lossy first) [] (newline_not_mem first h)
  rw [List.append_nil, List.takeWhile_nil, List.append_nil] at hwhile
  unfold firstLine
  rw [hwhile]
  dsimp only
  rw [if_neg]
  omega

/-! ### Cuts of the request -/

/-- Ways a request may come: no read is empty or longer than the buffer. -/
def Reads (request : Bytes) (reads : List Bytes) : Prop :=
  reads.flatten = request ∧ ∀ read ∈ reads, read ≠ [] ∧ read.length ≤ requestBytes

/-- The first read decides what the whole line says. -/
def DecidedBy (line first : Bytes) : Prop :=
  newline ∈ first ∨
  (∃ head tail cut, ReadyHead head ∧ Separated tail ∧ line = head ++ tail ∧
    Separated cut ∧ first = head ++ cut) ∨
  (¬AsksReady line ∧ ¬ReadyHead first)

theorem reads_cases (line rest : Bytes) (reads : List Bytes)
    (h : Reads (line ++ newline :: rest) reads) :
    (∃ more, reads.head?.getD [] = line ++ newline :: more) ∨
      ∃ more, line = reads.head?.getD [] ++ more := by
  obtain ⟨hflat, -⟩ := h
  cases reads with
  | nil =>
    have hlength := congrArg List.length hflat
    simp at hlength
  | cons first reads =>
    rw [List.flatten_cons, List.append_eq_append_iff] at hflat
    rcases hflat with ⟨more, hline, -⟩ | ⟨more, hfirst, hrest⟩
    · exact Or.inr ⟨more, hline⟩
    · cases more with
      | nil =>
        rw [List.append_nil] at hfirst
        exact Or.inr ⟨[], by rw [List.append_nil, ← hfirst]; rfl⟩
      | cons b more =>
        obtain ⟨rfl, -⟩ := List.cons.inj hrest
        exact Or.inl ⟨more, hfirst⟩

theorem separated_append {cut : Bytes} (more : Bytes) (h : Separated cut) (hne : cut ≠ []) :
    Separated (cut ++ more) := by
  rcases h with h | ⟨c, hc, hpre⟩
  · exact absurd h hne
  · exact Or.inr ⟨c, hc, hpre.trans (List.prefix_append _ _)⟩

/-- A first part of the line asks for the same as the line, exactly where it is decided. -/
theorem asksReady_part (first more : Bytes) (h : newline ∉ first) :
    (AsksReady first ↔ AsksReady (first ++ more)) ↔ DecidedBy (first ++ more) first := by
  constructor
  · intro hsame
    by_cases hasks : AsksReady (first ++ more)
    · obtain ⟨head, cut, hhead, hcut, hfirst⟩ := hsame.mpr hasks
      obtain ⟨head', tail, hhead', htail, hline⟩ := hasks
      have heq : head = head' := by
        apply twoWords_unique _ _ head head' (cut ++ more) tail plainWord_get plainWord_ready hhead
          hhead'
        rw [← hline, hfirst, List.append_assoc]
      subst heq
      exact Or.inr (Or.inl ⟨head, tail, cut, hhead, htail, hline, hcut, hfirst⟩)
    · refine Or.inr (Or.inr ⟨hasks, fun hhead => hasks (hsame.mp ?_)⟩)
      exact ⟨first, [], hhead, Or.inl rfl, by rw [List.append_nil]⟩
  · rintro (hmem | ⟨head, tail, cut, hhead, htail, hline, hcut, hfirst⟩ | ⟨hasks, hnot⟩)
    · exact absurd hmem h
    · exact iff_of_true ⟨head, cut, hhead, hcut, hfirst⟩ ⟨head, tail, hhead, htail, hline⟩
    · refine iff_of_false ?_ hasks
      rintro ⟨head, cut, hhead, hcut, rfl⟩
      by_cases hnil : cut = []
      · rw [hnil, List.append_nil] at hnot
        exact hnot hhead
      · refine hasks ⟨head, cut ++ more, hhead, separated_append more hcut hnil, ?_⟩
        rw [List.append_assoc]

theorem status_injective (ready asked asked' : Bool)
    (h : (readyAnswer ready asked).status = (readyAnswer ready asked').status) :
    asked = asked' := by
  revert ready asked asked'
  decide

/-- One way of cutting the request: the answer is right exactly when its first read decides. -/
theorem respond_iff (ready : Bool) (line rest : Bytes) (reads : List Bytes)
    (hline : newline ∉ line) (h : Reads (line ++ newline :: rest) reads) :
    (respond ready reads).status = statusFor ready line ↔
      DecidedBy line (reads.head?.getD []) := by
  rcases reads_cases line rest reads h with ⟨more, hfirst⟩ | ⟨more, hfirst⟩
  · refine iff_of_true ?_ (Or.inl (by rw [hfirst]; simp))
    unfold respond statusFor
    dsimp only
    rw [hfirst, asksText_whole line more hline]
  · unfold respond statusFor
    dsimp only
    generalize reads.head?.getD [] = first at hfirst ⊢
    subst hfirst
    have hfree : newline ∉ first := fun hm => hline (List.mem_append_left _ hm)
    rw [asksText_part first hfree, ← asksReady_part first more hfree, ← asksReady_iff,
      ← asksReady_iff]
    constructor
    · intro hstatus
      rw [status_injective ready _ _ hstatus]
    · intro hsame
      rw [Bool.eq_iff_iff.mpr hsame]

/-- The answer does not depend on how the request is cut, as far as both first reads decide it. -/
theorem respond_agrees_iff (ready : Bool) (line rest : Bytes) (reads reads' : List Bytes)
    (hline : newline ∉ line) (h : Reads (line ++ newline :: rest) reads)
    (h' : Reads (line ++ newline :: rest) reads') :
    ((respond ready reads).status = (respond ready reads').status ∧
        (respond ready reads).status = statusFor ready line) ↔
      DecidedBy line (reads.head?.getD []) ∧ DecidedBy line (reads'.head?.getD []) := by
  rw [← respond_iff ready line rest reads hline h, ← respond_iff ready line rest reads' hline h']
  constructor
  · rintro ⟨hsame, hright⟩
    exact ⟨hright, hsame ▸ hright⟩
  · rintro ⟨hright, hright'⟩
    exact ⟨hright.trans hright'.symm, hright⟩

def readyLine : Bytes := lit "GET /ready HTTP/1.1\r"

theorem respond_agrees_ready :
    ((respond true [readyLine ++ lit "\n\r\n"]).status =
        (respond true [lit "GET /ready", lit " HTTP/1.1\r\n\r\n"]).status ∧
      (respond true [readyLine ++ lit "\n\r\n"]).status = statusFor true readyLine) ↔
    DecidedBy readyLine (readyLine ++ lit "\n\r\n") ∧ DecidedBy readyLine (lit "GET /ready") :=
  respond_agrees_iff true readyLine (lit "\r\n") [readyLine ++ lit "\n\r\n"]
    [lit "GET /ready", lit " HTTP/1.1\r\n\r\n"] (by decide)
    ⟨by decide, by decide⟩ ⟨by decide, by decide⟩

/-- Cut inside its path, the request is answered before it is complete. -/
theorem respond_cut : ¬∀ (ready : Bool) (line rest : Bytes) (reads reads' : List Bytes),
    newline ∉ line → line.length < requestBytes →
    Reads (line ++ newline :: rest) reads → Reads (line ++ newline :: rest) reads' →
    (respond ready reads).status = (respond ready reads').status ∧
      (respond ready reads).status = statusFor ready line := by
  intro h
  have hcut := h true readyLine (lit "\r\n") [readyLine ++ lit "\n\r\n"]
    [lit "GET /rea", lit "dy HTTP/1.1\r\n\r\n"] (by decide) (by decide)
    ⟨by decide, by decide⟩ ⟨by decide, by decide⟩
  exact absurd hcut.1 (by decide +kernel)

end Sandcamp.Campd
