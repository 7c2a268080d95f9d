import Sandcamp.Foundations.Bytes
import Sandcamp.Foundations.Escaping

/-!
# The options of the overlay mount (linux.rs:1314-1341)

`OsStringBuffer::overlay` writes three paths into one string of options, with a backslash
before every backslash, comma and colon. `readOptions` is how the kernel takes such a string
apart: at unprotected commas, the lower layers at unprotected colons, and then one level of
backslashes is removed.
-/

namespace Sandcamp.Sandrun
open Foundations

abbrev backslash : UInt8 := 92
abbrev comma : UInt8 := 44
abbrev equals : UInt8 := 61

/-! ### Writing (`linux.rs:1321-1341`) -/

/-- `matches!(*byte, b'\\' | b',' | b':')`. -/
def isDelimiter (byte : UInt8) : Bool := byte == backslash || byte == comma || byte == colon

/-- `append_overlay_path`: one push or two for every byte. -/
def appendOverlayPath (buffer path : Bytes) : Bytes :=
  path.foldl (fun buffer byte =>
    let buffer := if isDelimiter byte then buffer ++ [backslash] else buffer
    buffer ++ [byte]) buffer

/-- `OsStringBuffer::overlay`. -/
def overlayOptions (lower upper work : Bytes) : Bytes :=
  let bytes := lit "lowerdir="
  let bytes := appendOverlayPath bytes lower
  let bytes := bytes ++ lit ",upperdir="
  let bytes := appendOverlayPath bytes upper
  let bytes := bytes ++ lit ",workdir="
  appendOverlayPath bytes work

/-! ### Reading -/

inductive MountOption where
  | flag (name : Bytes)
  | lowerLayers (layers : List Bytes)
  | setting (name value : Bytes)
  deriving DecidableEq, Repr

/-- One level of backslashes is removed. -/
def unescape (text : Bytes) : Bytes := unprotect backslash false text

/-- The value behind an equals sign. -/
def readValue (name value : Bytes) : MountOption :=
  if name = lit "lowerdir" then
    .lowerLayers ((splitUnprotected backslash colon false value).map unescape)
  else .setting name (unescape value)

/-- An option is a name, or a name and a value. -/
def readOption (option : Bytes) : MountOption :=
  match option.dropWhile (· ≠ equals) with
  | [] => .flag option
  | _ :: value => readValue (option.takeWhile (· ≠ equals)) value

def readOptions (data : Bytes) : List MountOption :=
  (splitUnprotected backslash comma false data).map readOption

/-! ### The round trip -/

theorem appendOverlayPath_eq (buffer path : Bytes) :
    appendOverlayPath buffer path = buffer ++ protect backslash isDelimiter path := by
  induction path generalizing buffer with
  | nil => simp [appendOverlayPath, protect]
  | cons byte rest ih =>
    rw [protect_cons, appendOverlayPath, List.foldl_cons, ← appendOverlayPath, ih]
    split <;> simp

/-- The three options, each a name and an escaped path. -/
theorem overlayOptions_eq (lower upper work : Bytes) :
    overlayOptions lower upper work =
      lit "lowerdir=" ++ protect backslash isDelimiter lower ++ comma ::
        (lit "upperdir=" ++ protect backslash isDelimiter upper ++ comma ::
          (lit "workdir=" ++ protect backslash isDelimiter work)) := by
  have hupper : lit ",upperdir=" = comma :: lit "upperdir=" := by decide
  have hwork : lit ",workdir=" = comma :: lit "workdir=" := by decide
  simp only [overlayOptions, appendOverlayPath_eq, hupper, hwork, List.append_assoc,
    List.cons_append]

/-- An escaped path behind a name without special bytes is one option. -/
theorem whole_option {name : Bytes} (hname : WholePiece backslash comma name) (path : Bytes) :
    WholePiece backslash comma (name ++ protect backslash isDelimiter path) :=
  whole_append hname (whole_protect (by decide) (by decide) (by decide) path)

theorem readOption_setting (name value : Bytes) (hname : equals ∉ name) :
    readOption (name ++ equals :: value) = readValue name value := by
  have hall : ∀ byte ∈ name, decide (byte ≠ equals) = true := by
    intro byte hbyte
    simpa using fun h : byte = equals => hname (h ▸ hbyte)
  rw [readOption, List.dropWhile_append_of_pos hall, List.takeWhile_append_of_pos hall]
  simp

theorem readLayer_protect (path : Bytes) :
    readValue (lit "lowerdir") (protect backslash isDelimiter path) = .lowerLayers [path] := by
  have hwhole : WholePiece backslash colon (protect backslash isDelimiter path) :=
    whole_protect (by decide) (by decide) (by decide) path
  rw [readValue, if_pos rfl, splitUnprotected_whole hwhole, List.map_singleton, unescape,
    unprotect_protect (by decide)]

theorem readSetting_protect (name path : Bytes) (hname : name ≠ lit "lowerdir") :
    readValue name (protect backslash isDelimiter path) = .setting name path := by
  rw [readValue, if_neg hname, unescape, unprotect_protect (by decide)]

/-- Whatever bytes the three paths hold, the kernel reads the three options it is meant to read,
with one lower layer. -/
theorem readOptions_overlay (lower upper work : Bytes) :
    readOptions (overlayOptions lower upper work) =
      [.lowerLayers [lower], .setting (lit "upperdir") upper, .setting (lit "workdir") work] := by
  have hlower : WholePiece backslash comma (lit "lowerdir=") := whole_of_plain _ (by decide +kernel)
  have hupper : WholePiece backslash comma (lit "upperdir=") := whole_of_plain _ (by decide +kernel)
  have hwork : WholePiece backslash comma (lit "workdir=") := whole_of_plain _ (by decide +kernel)
  rw [overlayOptions_eq, readOptions, splitUnprotected_cons _ (whole_option hlower lower),
    splitUnprotected_cons _ (whole_option hupper upper),
    splitUnprotected_whole (whole_option hwork work)]
  have hnames : lit "lowerdir=" = lit "lowerdir" ++ [equals] ∧
      lit "upperdir=" = lit "upperdir" ++ [equals] ∧
      lit "workdir=" = lit "workdir" ++ [equals] := by decide
  rw [hnames.1, hnames.2.1, hnames.2.2]
  simp only [List.map_cons, List.map_nil, List.append_assoc, List.singleton_append]
  rw [readOption_setting _ _ (by decide), readOption_setting _ _ (by decide),
    readOption_setting _ _ (by decide), readLayer_protect, readSetting_protect _ _ (by decide),
    readSetting_protect _ _ (by decide)]

example : overlayOptions (lit "/lower:one") (lit "/upper,two") (lit "/work\\three") =
    lit "lowerdir=/lower\\:one,upperdir=/upper\\,two,workdir=/work\\\\three" := by
  decide +kernel

end Sandcamp.Sandrun
