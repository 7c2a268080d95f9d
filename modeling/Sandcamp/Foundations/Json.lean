import Sandcamp.Foundations.Utf8

/-!
# JSON texts without blanks

`Json` is a tree of values over a type of strings. `write` is the compact text of a
tree whose strings are cut into pieces: well-formed UTF-8 sequences, and marks for what
was none. It follows Go's `json.Marshal`: quotation marks, backslashes, control
characters, `<`, `>`, `&`, U+2028 and U+2029 are escaped, and U+FFFD takes the place of
what is no UTF-8. Whether that U+FFFD is an escape or stands there as itself is left open
(`Replacement`). `read` takes such a text back to its tree, so the text of a tree
determines the tree.
-/

namespace Foundations

inductive Json (σ : Type) where
  | null
  | bool (b : Bool)
  | number (n : ℤ)
  | string (s : σ)
  | array (items : List (Json σ))
  | object (members : List (σ × Json σ))

namespace Json
open Utf8

/-- A string as a list of UTF-8 sequences and marks. -/
abbrev Pieces := List (Option Bytes)

variable {σ τ : Type}

mutual

def map (f : σ → τ) : Json σ → Json τ
  | .null => .null
  | .bool b => .bool b
  | .number n => .number n
  | .string s => .string (f s)
  | .array items => .array (mapItems f items)
  | .object members => .object (mapMembers f members)

def mapItems (f : σ → τ) : List (Json σ) → List (Json τ)
  | [] => []
  | item :: rest => map f item :: mapItems f rest

def mapMembers (f : σ → τ) : List (σ × Json σ) → List (τ × Json τ)
  | [] => []
  | (key, value) :: rest => (f key, map f value) :: mapMembers f rest

end

mutual

/-- At most `depth` levels of arrays and objects, with strings in `p`, keys included, and
numbers in `q`. -/
def Within (p : σ → Prop) (q : ℤ → Prop) : ℕ → Json σ → Prop
  | _, .null | _, .bool _ => True
  | _, .number n => q n
  | _, .string s => p s
  | 0, .array _ | 0, .object _ => False
  | depth + 1, .array items => WithinItems p q depth items
  | depth + 1, .object members => WithinMembers p q depth members

def WithinItems (p : σ → Prop) (q : ℤ → Prop) (depth : ℕ) : List (Json σ) → Prop
  | [] => True
  | item :: rest => Within p q depth item ∧ WithinItems p q depth rest

def WithinMembers (p : σ → Prop) (q : ℤ → Prop) (depth : ℕ) : List (σ × Json σ) → Prop
  | [] => True
  | (key, value) :: rest => p key ∧ Within p q depth value ∧ WithinMembers p q depth rest

end

section Lists
variable (f : σ → τ) (p : σ → Prop) (q : ℤ → Prop) (depth : ℕ)

theorem mapItems_eq (items : List (Json σ)) : mapItems f items = items.map (map f) := by
  induction items with
  | nil => rfl
  | cons item rest ih =>
    rw [mapItems, ih]
    rfl

theorem mapMembers_eq (members : List (σ × Json σ)) :
    mapMembers f members = members.map fun member => (f member.1, map f member.2) := by
  induction members with
  | nil => rfl
  | cons member rest ih =>
    obtain ⟨key, value⟩ := member
    rw [mapMembers, ih]
    rfl

theorem withinItems_iff (items : List (Json σ)) :
    WithinItems p q depth items ↔ ∀ item ∈ items, Within p q depth item := by
  induction items with
  | nil => simp [WithinItems]
  | cons item rest ih => rw [WithinItems, ih, List.forall_mem_cons]

theorem withinMembers_iff (members : List (σ × Json σ)) :
    WithinMembers p q depth members ↔
      ∀ member ∈ members, p member.1 ∧ Within p q depth member.2 := by
  induction members with
  | nil => simp [WithinMembers]
  | cons member rest ih =>
    obtain ⟨key, value⟩ := member
    rw [WithinMembers, ih, List.forall_mem_cons, and_assoc]

end Lists

mutual

theorem within_map (f : σ → τ) (p : τ → Prop) (q : ℤ → Prop) (depth : ℕ) :
    (v : Json σ) → (Within p q depth (map f v) ↔ Within (fun s => p (f s)) q depth v)
  | .null => by simp only [map, Within]
  | .bool _ => by simp only [map, Within]
  | .number _ => by simp only [map, Within]
  | .string _ => by simp only [map, Within]
  | .array items => by
    cases depth with
    | zero => simp only [map, Within]
    | succ depth => simpa only [map, Within] using within_mapItems f p q depth items
  | .object members => by
    cases depth with
    | zero => simp only [map, Within]
    | succ depth => simpa only [map, Within] using within_mapMembers f p q depth members

theorem within_mapItems (f : σ → τ) (p : τ → Prop) (q : ℤ → Prop) (depth : ℕ) :
    (items : List (Json σ)) →
      (WithinItems p q depth (mapItems f items) ↔ WithinItems (fun s => p (f s)) q depth items)
  | [] => by simp only [mapItems, WithinItems]
  | item :: rest => by
    have hitem := within_map f p q depth item
    have hrest := within_mapItems f p q depth rest
    simp only [mapItems, WithinItems, hitem, hrest]

theorem within_mapMembers (f : σ → τ) (p : τ → Prop) (q : ℤ → Prop) (depth : ℕ) :
    (members : List (σ × Json σ)) →
      (WithinMembers p q depth (mapMembers f members) ↔
        WithinMembers (fun s => p (f s)) q depth members)
  | [] => by simp only [mapMembers, WithinMembers]
  | (key, value) :: rest => by
    have hvalue := within_map f p q depth value
    have hrest := within_mapMembers f p q depth rest
    simp only [mapMembers, WithinMembers, hvalue, hrest]

end

mutual

theorem within_mono {p p' : σ → Prop} {q : ℤ → Prop} (himp : ∀ s, p s → p' s) (depth : ℕ) :
    (v : Json σ) → Within p q depth v → Within p' q depth v
  | .null, _ => by simp only [Within]
  | .bool _, _ => by simp only [Within]
  | .number _, h => by simpa only [Within] using h
  | .string s, h => by
    simp only [Within] at h ⊢
    exact himp s h
  | .array items, h => by
    cases depth with
    | zero => simp only [Within] at h
    | succ depth =>
      simp only [Within] at h ⊢
      exact withinItems_mono himp depth items h
  | .object members, h => by
    cases depth with
    | zero => simp only [Within] at h
    | succ depth =>
      simp only [Within] at h ⊢
      exact withinMembers_mono himp depth members h

theorem withinItems_mono {p p' : σ → Prop} {q : ℤ → Prop} (himp : ∀ s, p s → p' s) (depth : ℕ) :
    (items : List (Json σ)) → WithinItems p q depth items → WithinItems p' q depth items
  | [], _ => by simp only [WithinItems]
  | item :: rest, h => by
    simp only [WithinItems] at h ⊢
    exact ⟨within_mono himp depth item h.1, withinItems_mono himp depth rest h.2⟩

theorem withinMembers_mono {p p' : σ → Prop} {q : ℤ → Prop} (himp : ∀ s, p s → p' s)
    (depth : ℕ) : (members : List (σ × Json σ)) → WithinMembers p q depth members →
      WithinMembers p' q depth members
  | [], _ => by simp only [WithinMembers]
  | (key, value) :: rest, h => by
    simp only [WithinMembers] at h ⊢
    exact ⟨himp key h.1, within_mono himp depth value h.2.1,
      withinMembers_mono himp depth rest h.2.2⟩

end

variable {υ : Type}

mutual

/-- Two changes of strings that come to a third one on the strings of the tree. -/
theorem map_map_within (f : σ → τ) (g : τ → υ) (k : σ → υ) (p : σ → Prop) (q : ℤ → Prop)
    (hcomp : ∀ s, p s → g (f s) = k s) (depth : ℕ) :
    (v : Json σ) → Within p q depth v → map g (map f v) = map k v
  | .null, _ => by simp only [map]
  | .bool _, _ => by simp only [map]
  | .number _, _ => by simp only [map]
  | .string s, h => by
    simp only [Within] at h
    simp only [map, hcomp s h]
  | .array items, h => by
    cases depth with
    | zero => simp only [Within] at h
    | succ depth =>
      simp only [Within] at h
      simp only [map, mapItems_mapItems f g k p q hcomp depth items h]
  | .object members, h => by
    cases depth with
    | zero => simp only [Within] at h
    | succ depth =>
      simp only [Within] at h
      simp only [map, mapMembers_mapMembers f g k p q hcomp depth members h]

theorem mapItems_mapItems (f : σ → τ) (g : τ → υ) (k : σ → υ) (p : σ → Prop) (q : ℤ → Prop)
    (hcomp : ∀ s, p s → g (f s) = k s) (depth : ℕ) :
    (items : List (Json σ)) → WithinItems p q depth items →
      mapItems g (mapItems f items) = mapItems k items
  | [], _ => by simp only [mapItems]
  | item :: rest, h => by
    simp only [WithinItems] at h
    simp only [mapItems, map_map_within f g k p q hcomp depth item h.1,
      mapItems_mapItems f g k p q hcomp depth rest h.2]

theorem mapMembers_mapMembers (f : σ → τ) (g : τ → υ) (k : σ → υ) (p : σ → Prop) (q : ℤ → Prop)
    (hcomp : ∀ s, p s → g (f s) = k s) (depth : ℕ) :
    (members : List (σ × Json σ)) → WithinMembers p q depth members →
      mapMembers g (mapMembers f members) = mapMembers k members
  | [], _ => by simp only [mapMembers]
  | (key, value) :: rest, h => by
    simp only [WithinMembers] at h
    simp only [mapMembers, hcomp key h.1, map_map_within f g k p q hcomp depth value h.2.1,
      mapMembers_mapMembers f g k p q hcomp depth rest h.2.2]

end

mutual

theorem map_id : (v : Json σ) → map id v = v
  | .null => by simp only [map]
  | .bool _ => by simp only [map]
  | .number _ => by simp only [map]
  | .string _ => by simp only [map, id]
  | .array items => by simp only [map, mapItems_id items]
  | .object members => by simp only [map, mapMembers_id members]

theorem mapItems_id : (items : List (Json σ)) → mapItems id items = items
  | [] => by simp only [mapItems]
  | item :: rest => by simp only [mapItems, map_id item, mapItems_id rest]

theorem mapMembers_id : (members : List (σ × Json σ)) → mapMembers id members = members
  | [] => by simp only [mapMembers]
  | (key, value) :: rest => by
    simp only [mapMembers, map_id value, mapMembers_id rest, id]

end

/-! ### The text of a tree -/

/-- A digit of a `\u00XX` escape. -/
def hexDigit (n : ℕ) : UInt8 := (lit "0123456789abcdef").getD n 0

/-- The escape of one ASCII character, if it has one. -/
def escape (b : UInt8) : Option Bytes :=
  if b = 34 ∨ b = 92 then some [92, b]
  else if b = 8 then some (lit "\\b")
  else if b = 12 then some (lit "\\f")
  else if b = 10 then some (lit "\\n")
  else if b = 13 then some (lit "\\r")
  else if b = 9 then some (lit "\\t")
  else if b < 32 ∨ b = 60 ∨ b = 62 ∨ b = 38 then
    some (lit "\\u00" ++ [hexDigit (b.toNat / 16), hexDigit (b.toNat % 16)])
  else none

def lineSeparator : Bytes := [0xE2, 0x80, 0xA8]

def paragraphSeparator : Bytes := [0xE2, 0x80, 0xA9]

/-- A mark is the escape of U+FFFD. -/
def writePiece : Option Bytes → Bytes
  | none => lit "\\ufffd"
  | some [b] => (escape b).getD [b]
  | some sequence =>
    if sequence = lineSeparator then lit "\\u2028"
    else if sequence = paragraphSeparator then lit "\\u2029"
    else sequence

/-- The text of a string after its opening quotation mark. -/
def writeBody (pieces : Pieces) : Bytes := pieces.flatMap writePiece ++ [34]

/-- A decimal integer. -/
def integer (n : ℤ) : Bytes := if n < 0 then 45 :: decimal n.natAbs else decimal n.natAbs

mutual

def write : Json Pieces → Bytes
  | .null => lit "null"
  | .bool true => lit "true"
  | .bool false => lit "false"
  | .number n => integer n
  | .string s => 34 :: writeBody s
  | .array [] => lit "[]"
  | .array (item :: rest) => 91 :: (write item ++ writeItems rest)
  | .object [] => lit "{}"
  | .object ((key, value) :: rest) =>
    123 :: 34 :: (writeBody key ++ 58 :: (write value ++ writeMembers rest))

/-- The items after the first one, and the closing bracket. -/
def writeItems : List (Json Pieces) → Bytes
  | [] => [93]
  | item :: rest => 44 :: (write item ++ writeItems rest)

/-- The members after the first one, and the closing brace. -/
def writeMembers : List (Pieces × Json Pieces) → Bytes
  | [] => [125]
  | (key, value) :: rest => 44 :: 34 :: (writeBody key ++ 58 :: (write value ++ writeMembers rest))

end

/-! ### Reading it back -/

/-- The value of a hexadecimal digit. -/
def hexValue (b : UInt8) : ℕ := (lit "0123456789abcdef").idxOf b

/-- The piece behind an escape, after its backslash. -/
def readEscape : Bytes → Option (Option Bytes × Bytes)
  | 117 :: a :: b :: c :: d :: rest =>
    if [a, b, c, d] = lit "fffd" then some (none, rest)
    else if [a, b, c, d] = lit "2028" then some (some lineSeparator, rest)
    else if [a, b, c, d] = lit "2029" then some (some paragraphSeparator, rest)
    else some (some [UInt8.ofNat (16 * hexValue c + hexValue d)], rest)
  | b :: rest =>
    if b = 34 ∨ b = 92 then some (some [b], rest)
    else if b = 98 then some (some [8], rest)
    else if b = 102 then some (some [12], rest)
    else if b = 110 then some (some [10], rest)
    else if b = 114 then some (some [13], rest)
    else if b = 116 then some (some [9], rest)
    else none
  | [] => none

/-- The next piece of a string, and `none` for the closing quotation mark. -/
def readPiece : Bytes → Option (Option (Option Bytes) × Bytes)
  | [] => none
  | b :: rest =>
    if b = 34 then some (none, rest)
    else if b = 92 then (readEscape rest).map fun (piece, rest) => (some piece, rest)
    else match headChunk b rest with
      | .scalar sequence => some (some (some sequence), afterHead b rest)
      | .stray _ => none

def readBody : ℕ → Bytes → Option (Pieces × Bytes)
  | 0, _ => none
  | fuel + 1, text => do
    match ← readPiece text with
    | (none, rest) => some ([], rest)
    | (some piece, rest) => do
      let (pieces, rest) ← readBody fuel rest
      some (piece :: pieces, rest)

mutual

def read : ℕ → Bytes → Option (Json Pieces × Bytes)
  | 0, _ => none
  | _, [] => none
  | fuel + 1, b :: text =>
    if b = 34 then do
      let (pieces, rest) ← readBody (text.length + 1) text
      some (.string pieces, rest)
    else if b = 91 then
      if text.head? = some 93 then some (.array [], text.tail)
      else do
        let (item, rest) ← read fuel text
        let (items, rest) ← readItems fuel rest
        some (.array (item :: items), rest)
    else if b = 123 then
      if text.head? = some 125 then some (.object [], text.tail)
      else do
        let (member, rest) ← readMember fuel text
        let (members, rest) ← readMembers fuel rest
        some (.object (member :: members), rest)
    else if b = 110 then some (.null, text.drop 3)
    else if b = 116 then some (.bool true, text.drop 3)
    else if b = 102 then some (.bool false, text.drop 4)
    else if b = 45 then
      some (.number (-digitsValue 0 (text.takeWhile isAsciiDigit)), text.dropWhile isAsciiDigit)
    else some (.number (digitsValue 0 ((b :: text).takeWhile isAsciiDigit)),
      (b :: text).dropWhile isAsciiDigit)

def readItems : ℕ → Bytes → Option (List (Json Pieces) × Bytes)
  | 0, _ => none
  | _, [] => none
  | fuel + 1, b :: text =>
    if b = 93 then some ([], text)
    else do
      let (item, rest) ← read fuel text
      let (items, rest) ← readItems fuel rest
      some (item :: items, rest)

def readMember : ℕ → Bytes → Option ((Pieces × Json Pieces) × Bytes)
  | 0, _ => none
  | fuel + 1, text => do
    let (key, rest) ← readBody (text.length + 1) text.tail
    let (value, rest) ← read fuel rest.tail
    some ((key, value), rest)

def readMembers : ℕ → Bytes → Option (List (Pieces × Json Pieces) × Bytes)
  | 0, _ => none
  | _, [] => none
  | fuel + 1, b :: text =>
    if b = 125 then some ([], text)
    else do
      let (member, rest) ← readMember fuel text
      let (members, rest) ← readMembers fuel rest
      some (member :: members, rest)

end

/-- The tree of a whole text. -/
def readText (text : Bytes) : Option (Json Pieces) :=
  match read (text.length + 1) text with
  | some (value, []) => some value
  | _ => none

end Json

end Foundations
