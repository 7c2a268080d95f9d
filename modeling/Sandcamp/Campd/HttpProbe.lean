import Sandcamp.Foundations.HttpText
import Sandcamp.Foundations.Text
import Sandcamp.Campd.Spec

/-!
# The HTTP probe (runtime.rs:941-1007)

What `http_probe` sends, and what it makes of the answer. The kernel hands the answer
over in reads of its own choice: `Split free stream reads` are the reads of a stream into
a buffer with `free` bytes left. The loop collects them up to the first newline, the end
of the buffer or the end of the stream, so its verdict is one about the stream. I/O
errors and the deadline end a probe with `false` at once and are left out.
-/

namespace Sandcamp.Campd
open Foundations Foundations.Text

/-- The request of `http_probe` (`runtime.rs:955-958`). -/
def probeRequest (probe : Probe) : Bytes :=
  lit "GET " ++ probe.path ++
    lit " HTTP/1.1\r\nHost: 127.0.0.1\r\nConnection: close\r\n\r\n"

/-! ### The response loop -/

/-- `response.len()`. -/
def responseBytes : ℕ := 128

/-- What the loop leaves: the line it broke out with, and the length of the buffer it passed
to each `read`. -/
structure ResponseRead where
  line : Option Bytes
  offered : List ℕ

/-- The loop with `response[..size]` filled (`runtime.rs:964-985`); behind the last read the
stream ends, and a read returns 0. -/
def readResponse (response : Bytes) : List Bytes → ResponseRead
  | [] => ⟨none, [responseBytes - response.length]⟩
  | read :: reads =>
    let free := responseBytes - response.length
    let response := response ++ read
    match response.findIdx? (· == newline) with
    | some lineEnd => ⟨some (response.take lineEnd), [free]⟩
    | none =>
      if response.length = responseBytes then ⟨none, [free]⟩
      else
        let rest := readResponse response reads
        ⟨rest.line, free :: rest.offered⟩

/-- The test of the status line (`runtime.rs:986-995`). -/
def statusAccepted (line : Bytes) : Bool :=
  let parts := splitWhitespace (trimReturns (fromUtf8Lossy line))
  let version := parts[0]?.getD []
  let status := parts[1]?.getD []
  (version = lit "HTTP/1.0" ∨ version = lit "HTTP/1.1") &&
    status.length == 3 &&
    status.all isAsciiDigit &&
    ((parseUnsigned (2 ^ 16) status).any fun status => 200 ≤ status && status < 400)

/-- The verdict of `http_probe` on a response in these reads. -/
def probeVerdict (reads : List Bytes) : Bool :=
  match (readResponse [] reads).line with
  | some line => statusAccepted line
  | none => false

/-! ### Reads of a stream -/

/-- Ways to read a stream into a buffer with so much room: no read is empty or longer than
the room left, and none comes when there is no room or no byte left. -/
inductive Split : ℕ → Bytes → List Bytes → Prop where
  | ended (free : ℕ) : Split free [] []
  | full (stream : Bytes) : Split 0 stream []
  | read (free : ℕ) (bytes stream : Bytes) (reads : List Bytes) (hne : bytes ≠ [])
      (hle : bytes.length ≤ free) (hrest : Split (free - bytes.length) stream reads) :
      Split free (bytes ++ stream) (bytes :: reads)

theorem findIdx_newline (response : Bytes) (i : ℕ)
    (h : response.findIdx? (· == newline) = some i) :
    newline ∉ response.take i ∧ ∃ rest, response = response.take i ++ newline :: rest := by
  rw [List.findIdx?_eq_some_iff_getElem] at h
  obtain ⟨hlt, hat, hbefore⟩ := h
  have hat' : response[i] = newline := by simpa using hat
  constructor
  · intro hm
    obtain ⟨j, hj, heq⟩ := List.getElem_of_mem hm
    rw [List.length_take] at hj
    rw [List.getElem_take] at heq
    have hnot := hbefore j (by omega)
    simp [heq] at hnot
  · refine ⟨response.drop (i + 1), ?_⟩
    rw [← hat', ← List.drop_eq_getElem_cons hlt, List.take_append_drop]

theorem line_unique {line line' rest rest' : Bytes} (h : newline ∉ line) (h' : newline ∉ line')
    (heq : line ++ newline :: rest = line' ++ newline :: rest') : line = line' := by
  have hcut := HttpText.cutAt_append newline line rest h
  have hcut' := HttpText.cutAt_append newline line' rest' h'
  rw [heq, hcut'] at hcut
  exact (Prod.mk.inj (Option.some.inj hcut)).1.symm

/-- What the loop does with a line of which `response` has come so far. -/
structure ReadsLine (response stream : Bytes) (outcome : ResponseRead) : Prop where
  line : ∀ line, outcome.line = some line ↔ newline ∉ line ∧ line.length < responseBytes ∧
    ∃ rest, response ++ stream = line ++ newline :: rest
  room : ∀ free ∈ outcome.offered, 0 < free
  few : outcome.offered.length ≤ responseBytes - response.length

/-- The last read brings no newline where a line could still end. -/
theorem readsLine_none {response stream : Bytes} (hroom : response.length < responseBytes)
    (hlate : ∀ line rest, newline ∉ line → response ++ stream = line ++ newline :: rest →
      responseBytes ≤ line.length) :
    ReadsLine response stream ⟨none, [responseBytes - response.length]⟩ where
  line line := by
    constructor
    · intro hline
      cases hline
    · rintro ⟨hfree, hshort, rest, heq⟩
      have hlong := hlate line rest hfree heq
      omega
  room free hm := by
    obtain rfl := List.mem_singleton.mp hm
    omega
  few := by
    show 1 ≤ _
    omega

theorem readsLine_found {response stream found rest : Bytes} (hroom : response.length < responseBytes)
    (hfound : newline ∉ found) (hshort : found.length < responseBytes)
    (hsplit : response ++ stream = found ++ newline :: rest) :
    ReadsLine response stream ⟨some found, [responseBytes - response.length]⟩ where
  line line := by
    constructor
    · intro heq
      obtain rfl := Option.some.inj heq
      exact ⟨hfound, hshort, rest, hsplit⟩
    · rintro ⟨hfree, -, rest', heq⟩
      rw [hsplit] at heq
      show some _ = some line
      rw [line_unique hfound hfree heq]
  room free hm := by
    obtain rfl := List.mem_singleton.mp hm
    omega
  few := by
    show 1 ≤ _
    omega

/-- A line that is not in the first bytes is no shorter than they are. -/
theorem length_le_of_not_mem {front back line rest : Bytes} (hfree : newline ∉ front)
    (heq : front ++ back = line ++ newline :: rest) : front.length ≤ line.length := by
  by_contra hshort
  have htake := congrArg (List.take front.length) heq
  rw [List.take_left, List.take_append] at htake
  obtain ⟨k, hk⟩ : ∃ k, front.length - line.length = k + 1 :=
    ⟨front.length - line.length - 1, by omega⟩
  apply hfree
  rw [htake, hk]
  exact List.mem_append_right _ List.mem_cons_self

theorem readResponse_reads (response stream : Bytes) (reads : List Bytes)
    (hfree : newline ∉ response) (hroom : response.length < responseBytes)
    (h : Split (responseBytes - response.length) stream reads) :
    ReadsLine response stream (readResponse response reads) := by
  generalize hn : responseBytes - response.length = free at h
  induction h generalizing response with
  | ended free =>
    apply readsLine_none hroom
    intro line rest _ heq
    rw [List.append_nil] at heq
    exact absurd (by rw [heq]; simp) hfree
  | full stream => omega
  | read free bytes stream reads hne hle hrest ih =>
    have hpos : 0 < bytes.length := List.length_pos_iff.mpr hne
    have hlength : (response ++ bytes).length = response.length + bytes.length :=
      List.length_append
    rw [readResponse]
    cases hfind : (response ++ bytes).findIdx? (· == newline) with
    | some i =>
      obtain ⟨hline, rest, hsplit⟩ := findIdx_newline _ i hfind
      dsimp only
      generalize (response ++ bytes).take i = found at hline hsplit ⊢
      have hshort : found.length < responseBytes := by
        have hle' := congrArg List.length hsplit
        rw [hlength, List.length_append, List.length_cons] at hle'
        omega
      have hstream : response ++ (bytes ++ stream) = found ++ newline :: (rest ++ stream) := by
        rw [← List.append_assoc, hsplit]
        simp
      exact readsLine_found hroom hline hshort hstream
    | none =>
      have hnone : newline ∉ response ++ bytes := by
        intro hm
        rw [List.findIdx?_eq_none_iff] at hfind
        have hnot := hfind newline hm
        simp at hnot
      dsimp only
      by_cases hfull : (response ++ bytes).length = responseBytes
      · rw [if_pos hfull]
        apply readsLine_none hroom
        intro line rest _ heq
        rw [← List.append_assoc] at heq
        have hlong := length_le_of_not_mem hnone heq
        omega
      · rw [if_neg hfull]
        obtain ⟨hline, hoffered, hfew⟩ := ih (response ++ bytes) hnone (by omega) (by omega)
        refine ⟨fun line => ?_, ?_, ?_⟩
        · rw [hline line, List.append_assoc]
        · rw [List.forall_mem_cons]
          exact ⟨by omega, hoffered⟩
        · show (readResponse (response ++ bytes) reads).offered.length + 1 ≤ _
          omega

/-! ### The status line -/

/-- The version is HTTP/1.0 or HTTP/1.1, the status three digits from 200 to 399. -/
def StatusLine (line : Bytes) : Prop :=
  ∃ version status more,
    splitWhitespace (trimReturns (fromUtf8Lossy line)) = version :: status :: more ∧
    (version = lit "HTTP/1.0" ∨ version = lit "HTTP/1.1") ∧
    ∃ a b c : ℕ, a < 10 ∧ b < 10 ∧ c < 10 ∧
      status = [UInt8.ofNat (48 + a), UInt8.ofNat (48 + b), UInt8.ofNat (48 + c)] ∧
      200 ≤ 100 * a + 10 * b + c ∧ 100 * a + 10 * b + c ≤ 399

theorem digit_of_isAsciiDigit (b : UInt8) (h : isAsciiDigit b = true) :
    ∃ d < 10, b = UInt8.ofNat (48 + d) ∧ b.toNat - 48 = d := by
  rw [isAsciiDigit_toNat] at h
  refine ⟨b.toNat - 48, by omega, ?_, rfl⟩
  apply UInt8.toNat_inj.mp
  rw [UInt8.toNat_ofNat']
  omega

theorem ofNat_digit (d : ℕ) (h : d < 10) :
    isAsciiDigit (UInt8.ofNat (48 + d)) = true ∧ (UInt8.ofNat (48 + d)).toNat - 48 = d := by
  have hvalue : (UInt8.ofNat (48 + d)).toNat = 48 + d := by
    rw [UInt8.toNat_ofNat']
    omega
  rw [isAsciiDigit_toNat, hvalue]
  omega

theorem parseUnsigned_three (x y z : UInt8) (hx : isAsciiDigit x = true)
    (hy : isAsciiDigit y = true) (hz : isAsciiDigit z = true) :
    parseUnsigned (2 ^ 16) [x, y, z] =
      some (100 * (x.toNat - 48) + 10 * (y.toNat - 48) + (z.toNat - 48)) := by
  have hvalue : digitsValue 0 [x, y, z] =
      100 * (x.toNat - 48) + 10 * (y.toNat - 48) + (z.toNat - 48) := by
    simp only [digitsValue, List.foldl_cons, List.foldl_nil]
    omega
  have hdigits : [x, y, z].all isAsciiDigit = true := by
    simp [hx, hy, hz]
  have hplus : ¬[x, y, z].head? = some 43 := by
    intro heq
    rw [Option.some.inj heq] at hx
    cases hx
  have hbound : digitsValue 0 [x, y, z] < 2 ^ 16 := by
    rw [hvalue]
    rw [isAsciiDigit_toNat] at hx hy hz
    omega
  rw [parseUnsigned, if_neg hplus, if_pos ⟨List.cons_ne_nil _ _, hdigits, hbound⟩, hvalue]

theorem statusAccepted_iff (line : Bytes) : statusAccepted line = true ↔ StatusLine line := by
  unfold statusAccepted StatusLine
  generalize splitWhitespace (trimReturns (fromUtf8Lossy line)) = parts
  simp only [Bool.and_eq_true, decide_eq_true_eq, beq_iff_eq]
  constructor
  · rintro ⟨⟨⟨hversion, hlength⟩, hdigits⟩, hvalue⟩
    rcases parts with _ | ⟨version, _ | ⟨status, more⟩⟩
    · cases hlength
    · cases hlength
    · have hstatus : (version :: status :: more)[1]?.getD [] = status := rfl
      rw [hstatus] at hlength hdigits hvalue
      obtain ⟨x, y, z, rfl⟩ := List.length_eq_three.mp hlength
      simp only [List.all_cons, List.all_nil, Bool.and_true, Bool.and_eq_true] at hdigits
      obtain ⟨hx, hy, hz⟩ := hdigits
      rw [parseUnsigned_three x y z hx hy hz] at hvalue
      obtain ⟨a, ha, rfl, hav⟩ := digit_of_isAsciiDigit x hx
      obtain ⟨b, hb, rfl, hbv⟩ := digit_of_isAsciiDigit y hy
      obtain ⟨c, hc, rfl, hcv⟩ := digit_of_isAsciiDigit z hz
      rw [hav, hbv, hcv] at hvalue
      simp only [Option.any_some, Bool.and_eq_true, decide_eq_true_eq] at hvalue
      exact ⟨version, _, more, rfl, hversion, a, b, c, ha, hb, hc, rfl, hvalue.1, by omega⟩
  · rintro ⟨version, status, more, rfl, hversion, a, b, c, ha, hb, hc, rfl, hlow, hhigh⟩
    obtain ⟨hda, hva⟩ := ofNat_digit a ha
    obtain ⟨hdb, hvb⟩ := ofNat_digit b hb
    obtain ⟨hdc, hvc⟩ := ofNat_digit c hc
    refine ⟨⟨⟨hversion, rfl⟩, ?_⟩, ?_⟩
    · show [_, _, _].all isAsciiDigit = true
      simp only [List.all_cons, hda, hdb, hdc, List.all_nil, Bool.and_self]
    · show (parseUnsigned (2 ^ 16) [_, _, _]).any _ = true
      rw [parseUnsigned_three _ _ _ hda hdb hdc, hva, hvb, hvc]
      simp only [Option.any_some, Bool.and_eq_true, decide_eq_true_eq]
      exact ⟨hlow, by omega⟩

/-- The verdict of a probe: however the answer is cut into reads, it is about the first line,
which must end within the buffer. -/
theorem probeVerdict_iff (stream : Bytes) (reads : List Bytes)
    (h : Split responseBytes stream reads) :
    (readResponse [] reads).offered.length ≤ 128 ∧
    (∀ free ∈ (readResponse [] reads).offered, 0 < free) ∧
    (probeVerdict reads = true ↔ ∃ line rest, stream = line ++ newline :: rest ∧
      newline ∉ line ∧ line.length < 128 ∧ StatusLine line) := by
  obtain ⟨hline, hroom, hfew⟩ := readResponse_reads [] stream reads List.not_mem_nil
    (by decide) h
  refine ⟨hfew, hroom, ?_⟩
  unfold probeVerdict
  constructor
  · intro haccepted
    cases hfound : (readResponse [] reads).line with
    | none =>
      rw [hfound] at haccepted
      cases haccepted
    | some line =>
      rw [hfound] at haccepted
      obtain ⟨hfree, hshort, rest, heq⟩ := (hline line).mp hfound
      exact ⟨line, rest, heq, hfree, hshort, (statusAccepted_iff line).mp haccepted⟩
  · rintro ⟨line, rest, heq, hfree, hshort, hstatus⟩
    rw [(hline line).mpr ⟨hfree, hshort, rest, heq⟩]
    exact (statusAccepted_iff line).mpr hstatus

/-- A status line cut between its carriage return and its newline, with a body behind it. -/
def cutReads : List Bytes := [lit "HTTP/1.1 204 No Content\r", lit "\nbody"]

theorem probeVerdict_cut : (readResponse [] cutReads).offered.length ≤ 128 ∧
    (∀ free ∈ (readResponse [] cutReads).offered, 0 < free) ∧
    (probeVerdict cutReads = true ↔ ∃ line rest, cutReads.flatten = line ++ newline :: rest ∧
      newline ∉ line ∧ line.length < 128 ∧ StatusLine line) := by
  refine probeVerdict_iff cutReads.flatten cutReads ?_
  refine Split.read _ _ _ _ (by decide) (by decide) ?_
  exact Split.read _ _ _ _ (by decide) (by decide) (Split.ended _)

end Sandcamp.Campd
