import Sandcamp.Foundations.Bytes
import Mathlib.Data.List.DropRight

/-!
# The text of an HTTP/1.x request

A reader as forgiving as any recipient may be: a line ends at its newline, with or
without a carriage return before it; the words of the request line stand between any
control characters or blanks; a field value loses the blanks around it. What is
written from words without blanks and fields without newlines reads back as it was.
-/

namespace Foundations.HttpText

/-- `bytes` up to the first `sep`, and what stands behind it. -/
def cutAt (sep : UInt8) : Bytes → Option (Bytes × Bytes)
  | [] => none
  | b :: bs => if b = sep then some ([], bs) else (cutAt sep bs).map fun cut => (b :: cut.1, cut.2)

theorem cutAt_append (sep : UInt8) (front rest : Bytes) (h : sep ∉ front) :
    cutAt sep (front ++ sep :: rest) = some (front, rest) := by
  induction front with
  | nil => simp [cutAt]
  | cons b front ih =>
    rw [List.mem_cons, not_or] at h
    have hb : b ≠ sep := fun heq => h.1 heq.symm
    rw [List.cons_append, cutAt, if_neg hb, ih h.2]
    rfl

/-! ### Lines and words -/

abbrev carriageReturn : UInt8 := 13

def lineEnd : Bytes := [carriageReturn, newline]

def dropReturn (line : Bytes) : Bytes :=
  if line.getLast? = some carriageReturn then line.dropLast else line

def readLine (bytes : Bytes) : Option (Bytes × Bytes) :=
  (cutAt newline bytes).map fun cut => (dropReturn cut.1, cut.2)

/-- Space and all control characters below it. -/
def blank (b : UInt8) : Bool := b ≤ 32

def words (line : Bytes) : List Bytes := (line.splitOnP blank).filter (· ≠ [])

def trim (value : Bytes) : Bytes := (value.dropWhile blank).rdropWhile blank

/-- A non-empty string without a blank. -/
def Word (w : Bytes) : Prop := w ≠ [] ∧ ∀ b ∈ w, blank b = false

theorem readLine_append (line rest : Bytes) (h : newline ∉ line) :
    readLine (line ++ lineEnd ++ rest) = some (line, rest) := by
  have hfree : newline ∉ line ++ [carriageReturn] := by
    rw [List.mem_append, not_or]
    exact ⟨h, by decide⟩
  have hcut := cutAt_append newline (line ++ [carriageReturn]) rest hfree
  have heq : line ++ lineEnd ++ rest = line ++ [carriageReturn] ++ newline :: rest := by
    simp [lineEnd]
  rw [readLine, heq, hcut, Option.map_some, dropReturn, if_pos (by simp), List.dropLast_concat]

theorem words_append (w rest : Bytes) (h : Word w) (b : UInt8) (hb : blank b = true) :
    words (w ++ b :: rest) = w :: words rest := by
  unfold words
  rw [List.splitOnP_append_cons_of_forall_mem h.2 b hb, List.filter_cons_of_pos (by simp [h.1])]

theorem words_word (w : Bytes) (h : Word w) : words w = [w] := by
  unfold words
  rw [List.splitOnP_eq_singleton h.2, List.filter_cons_of_pos (by simp [h.1]), List.filter_nil]

theorem newline_not_mem_word (w : Bytes) (h : Word w) : newline ∉ w := by
  intro hm
  have hblank := h.2 newline hm
  cases hblank

/-! ### Requests -/

structure Request where
  method : Bytes
  target : Bytes
  version : Bytes
  fields : List (Bytes × Bytes)
  body : Bytes
  deriving DecidableEq

def readField (line : Bytes) : Option (Bytes × Bytes) :=
  (cutAt colon line).map fun cut => (cut.1, trim cut.2)

/-- The fields up to the empty line, and what follows it. -/
def readFields : ℕ → Bytes → Option (List (Bytes × Bytes) × Bytes)
  | 0, _ => none
  | fuel + 1, bytes => do
    let (line, rest) ← readLine bytes
    if line = [] then some ([], rest)
    else do
      let field ← readField line
      let (fields, body) ← readFields fuel rest
      some (field :: fields, body)

/-- A request line of exactly three words. -/
def readRequestLine (line : Bytes) : Option (Bytes × Bytes × Bytes) :=
  match words line with
  | [method, target, version] => some (method, target, version)
  | _ => none

def readRequest (bytes : Bytes) : Option Request := do
  let (line, rest) ← readLine bytes
  let (method, target, version) ← readRequestLine line
  let (fields, body) ← readFields rest.length rest
  some { method, target, version, fields, body }

def writeField (field : Bytes × Bytes) : Bytes := field.1 ++ [colon, 32] ++ field.2

def Request.head (request : Request) : Bytes :=
  request.method ++ [32] ++ request.target ++ [32] ++ request.version

def Request.write (request : Request) : Bytes :=
  request.head ++ lineEnd ++ request.fields.flatMap (fun field => writeField field ++ lineEnd) ++
    lineEnd ++ request.body

structure PlainField (field : Bytes × Bytes) : Prop where
  name : colon ∉ field.1 ∧ newline ∉ field.1
  value : newline ∉ field.2
  trimmed : trim (32 :: field.2) = field.2

structure Request.Plain (request : Request) : Prop where
  method : Word request.method
  target : Word request.target
  version : Word request.version
  fields : ∀ field ∈ request.fields, PlainField field

theorem readField_write (field : Bytes × Bytes) (h : PlainField field) :
    readField (writeField field) = some field := by
  have heq : writeField field = field.1 ++ colon :: (32 :: field.2) := by simp [writeField]
  rw [readField, heq, cutAt_append colon field.1 _ h.name.1, Option.map_some, h.trimmed]

theorem newline_not_mem_writeField (field : Bytes × Bytes) (h : PlainField field) :
    newline ∉ writeField field := by
  have hsep : newline ∉ [colon, 32] := by decide
  simp only [writeField, List.mem_append, not_or]
  exact ⟨⟨h.name.2, hsep⟩, h.value⟩

theorem readFields_write (fields : List (Bytes × Bytes)) (body : Bytes)
    (h : ∀ field ∈ fields, PlainField field) (fuel : ℕ) (hfuel : fields.length < fuel) :
    readFields fuel
      (fields.flatMap (fun field => writeField field ++ lineEnd) ++ lineEnd ++ body) =
        some (fields, body) := by
  induction fields generalizing fuel with
  | nil =>
    cases fuel with
    | zero => omega
    | succ fuel =>
      have hline := readLine_append [] body (by simp)
      rw [List.nil_append] at hline
      rw [List.flatMap_nil, List.nil_append, readFields, hline]
      rfl
  | cons field fields ih =>
    cases fuel with
    | zero => omega
    | succ fuel =>
      have hfield := h field List.mem_cons_self
      have hrest := ih (fun other hm => h other (List.mem_cons_of_mem _ hm)) fuel
        (by rw [List.length_cons] at hfuel; omega)
      have hline := readLine_append (writeField field)
        (fields.flatMap (fun field => writeField field ++ lineEnd) ++ lineEnd ++ body)
        (newline_not_mem_writeField field hfield)
      have hne : writeField field ≠ [] := by simp [writeField]
      have heq : (field :: fields).flatMap (fun field => writeField field ++ lineEnd) ++
          lineEnd ++ body = writeField field ++ lineEnd ++
            (fields.flatMap (fun field => writeField field ++ lineEnd) ++ lineEnd ++ body) := by
        simp only [List.flatMap_cons, List.append_assoc]
      rw [heq, readFields, hline]
      show (if writeField field = [] then _ else _) = _
      rw [if_neg hne, readField_write field hfield, hrest]
      rfl

theorem readRequestLine_head (request : Request) (h : request.Plain) :
    readRequestLine request.head = some (request.method, request.target, request.version) := by
  have heq : request.head =
      request.method ++ 32 :: (request.target ++ 32 :: request.version) := by
    simp [Request.head]
  rw [readRequestLine, heq, words_append _ _ h.method 32 (by decide),
    words_append _ _ h.target 32 (by decide), words_word _ h.version]

theorem newline_not_mem_head (request : Request) (h : request.Plain) : newline ∉ request.head := by
  have hspace : newline ∉ [(32 : UInt8)] := by decide
  simp only [Request.head, List.mem_append, not_or]
  exact ⟨⟨⟨⟨newline_not_mem_word _ h.method, hspace⟩, newline_not_mem_word _ h.target⟩, hspace⟩,
    newline_not_mem_word _ h.version⟩

theorem fields_length_le (fields : List (Bytes × Bytes)) :
    fields.length ≤ (fields.flatMap fun field => writeField field ++ lineEnd).length := by
  induction fields with
  | nil => exact Nat.le_refl 0
  | cons field fields ih =>
    rw [List.flatMap_cons, List.length_append, List.length_append, List.length_cons]
    have hend : lineEnd.length = 2 := rfl
    omega

/-- A plain request reads back as it was written. -/
theorem readRequest_write (request : Request) (h : request.Plain) :
    readRequest request.write = some request := by
  have hassoc : request.write = request.head ++ lineEnd ++
      (request.fields.flatMap (fun field => writeField field ++ lineEnd) ++ lineEnd ++
        request.body) := by
    simp only [Request.write, List.append_assoc]
  have hlength := fields_length_le request.fields
  have hfields := readFields_write request.fields request.body h.fields
    (request.fields.flatMap (fun field => writeField field ++ lineEnd) ++ lineEnd ++
      request.body).length (by
        have hend : lineEnd.length = 2 := rfl
        rw [List.length_append, List.length_append]
        omega)
  simp only [hassoc, readRequest, readLine_append _ _ (newline_not_mem_head request h),
    readRequestLine_head request h, hfields, Option.bind_eq_bind, Option.bind_some]

end Foundations.HttpText
