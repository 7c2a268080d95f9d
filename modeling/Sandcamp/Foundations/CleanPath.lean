import Sandcamp.Foundations.UnixPath

/-!
# Lexical path cleaning

`clean` follows the documented rules of Go's `path.Clean`: repeated slashes become one,
`.` is dropped, `..` takes the name before it away, and a rooted path has nothing above
its root. A rooted path that cleaning leaves alone is the one written from its names.
-/

namespace Foundations.UnixPath
open Foundations

/-- One element between slashes, applied to the names kept so far. -/
def cleanStep (rooted : Bool) (stack : List Bytes) (piece : Bytes) : List Bytes :=
  if piece = [] ∨ piece = dot then stack
  else if piece = dotDot then
    match stack.getLast? with
    | none => if rooted then [] else [dotDot]
    | some last => if last = dotDot then stack ++ [dotDot] else stack.dropLast
  else stack ++ [piece]

def cleanNames (p : Bytes) : List Bytes :=
  (p.splitOn slash).foldl (cleanStep (hasRoot p)) []

/-- `path.Clean`. -/
def clean (p : Bytes) : Bytes :=
  if hasRoot p then absolute (cleanNames p)
  else if cleanNames p = [] then dot
  else [slash].intercalate (cleanNames p)

/-- `path.Join`. -/
def joinClean (elements : List Bytes) : Bytes :=
  let parts := elements.filter (· ≠ [])
  if parts = [] then [] else clean ([slash].intercalate parts)

theorem cleanStep_proper (stack : List Bytes) (piece : Bytes) (h : ∀ n ∈ stack, ProperName n)
    (hpiece : slash ∉ piece) : ∀ n ∈ cleanStep true stack piece, ProperName n := by
  intro n hn
  unfold cleanStep at hn
  split at hn
  · exact h n hn
  · rename_i hskip
    split at hn
    · split at hn
      · simp at hn
      · rename_i last hlast
        have hproper := h last (List.mem_of_getLast? hlast)
        rw [if_neg hproper.2.2.1] at hn
        exact h n (List.dropLast_subset _ hn)
    · rename_i hdots
      rcases List.mem_append.mp hn with hold | hnew
      · exact h n hold
      · obtain rfl := List.mem_singleton.mp hnew
        exact ⟨fun he => hskip (Or.inl he), fun he => hskip (Or.inr he), hdots, hpiece⟩

theorem foldl_cleanStep_proper (pieces stack : List Bytes) (h : ∀ n ∈ stack, ProperName n)
    (hpieces : ∀ piece ∈ pieces, slash ∉ piece) :
    ∀ n ∈ pieces.foldl (cleanStep true) stack, ProperName n := by
  induction pieces generalizing stack with
  | nil => exact h
  | cons piece pieces ih =>
    have hstep := cleanStep_proper stack piece h (hpieces piece List.mem_cons_self)
    exact ih _ hstep fun other hm => hpieces other (List.mem_cons_of_mem _ hm)

theorem cleanNames_proper (p : Bytes) (h : hasRoot p = true) :
    ∀ n ∈ cleanNames p, ProperName n := by
  unfold cleanNames
  rw [h]
  exact foldl_cleanStep_proper _ [] (by simp) (slash_not_mem_pieces p)

theorem foldl_cleanStep_names (ns stack : List Bytes) (rooted : Bool)
    (h : ∀ n ∈ ns, ProperName n) : ns.foldl (cleanStep rooted) stack = stack ++ ns := by
  induction ns generalizing stack with
  | nil => simp
  | cons n ns ih =>
    have hn := h n List.mem_cons_self
    have hstep : cleanStep rooted stack n = stack ++ [n] := by
      unfold cleanStep
      rw [if_neg (by simp [hn.1, hn.2.1]), if_neg hn.2.2.1]
    rw [List.foldl_cons, hstep, ih _ fun m hm => h m (List.mem_cons_of_mem _ hm)]
    simp

theorem cleanNames_absolute (ns : List Bytes) (h : ∀ n ∈ ns, ProperName n) :
    cleanNames (absolute ns) = ns := by
  cases ns with
  | nil => decide
  | cons n ns =>
    have hsplit : (absolute (n :: ns)).splitOn slash = [] :: n :: ns := by
      rw [absolute_cons]
      exact splitOn_flatMap _ fun m hm => (h m hm).2.2.2
    unfold cleanNames
    rw [hsplit, List.foldl_cons]
    exact foldl_cleanStep_names (n :: ns) [] _ h

theorem clean_absolute (ns : List Bytes) (h : ∀ n ∈ ns, ProperName n) :
    clean (absolute ns) = absolute ns := by
  unfold clean
  rw [hasRoot_absolute, if_pos rfl, cleanNames_absolute ns h]

theorem clean_eq_self (p : Bytes) (h : hasRoot p = true) :
    clean p = p ↔ p = absolute (names p) := by
  constructor
  · intro hclean
    have hproper := cleanNames_proper p h
    have hshape : p = absolute (cleanNames p) := by
      unfold clean at hclean
      rw [if_pos h] at hclean
      exact hclean.symm
    have hnames : names p = cleanNames p := by
      rw [hshape, names_absolute _ hproper, ← hshape]
    rw [hnames]
    exact hshape
  · intro hshape
    rw [hshape, clean_absolute _ (names_proper p)]

/-! ### Prefixes of clean paths -/

theorem absolute_injective (ns ms : List Bytes) (hns : ∀ n ∈ ns, ProperName n)
    (hms : ∀ n ∈ ms, ProperName n) (h : absolute ns = absolute ms) : ns = ms := by
  have hnames := congrArg names h
  rwa [names_absolute ns hns, names_absolute ms hms] at hnames

theorem absolute_append (ns : List Bytes) (m : Bytes) (ms : List Bytes) (h : ns ≠ []) :
    absolute (ns ++ m :: ms) = absolute ns ++ slash :: (m ++ ms.flatMap fun n => slash :: n) := by
  unfold absolute
  rw [if_neg h, if_neg (by simp), List.flatMap_append, List.flatMap_cons, List.cons_append]

/-- One path and a slash start another one when its names properly start the other's. -/
theorem absolute_slash_prefix_iff (ns ms : List Bytes) (hne : ns ≠ [])
    (hns : ∀ n ∈ ns, ProperName n) (hms : ∀ n ∈ ms, ProperName n) :
    absolute ns ++ [slash] <+: absolute ms ↔ ns <+: ms ∧ ns ≠ ms := by
  have hsplit : (absolute ns).splitOn slash = [] :: ns := by
    unfold absolute
    rw [if_neg hne]
    exact splitOn_flatMap ns fun n hn => (hns n hn).2.2.2
  constructor
  · rintro ⟨rest, hrest⟩
    have hpieces := congrArg (List.splitOn slash) hrest
    rw [List.append_assoc, List.singleton_append, splitOn_append_slash, hsplit] at hpieces
    have hrestNe := List.splitOn_ne_nil slash rest
    cases ms with
    | nil =>
      have hlength := congrArg List.length hpieces
      have hroot : ((absolute []).splitOn slash).length = 2 := by decide
      have hnsPos := List.length_pos_iff.mpr hne
      have hrestPos := List.length_pos_iff.mpr hrestNe
      rw [hroot, List.length_append, List.length_cons] at hlength
      omega
    | cons m ms =>
      rw [absolute_cons, splitOn_flatMap _ fun n hn => (hms n hn).2.2.2, List.cons_append] at hpieces
      have hshape := (List.cons.inj hpieces).2
      rw [← hshape]
      refine ⟨List.prefix_append _ _, fun he => hrestNe ?_⟩
      exact List.append_right_eq_self.mp he.symm
  · rintro ⟨⟨rest, rfl⟩, hproper⟩
    cases rest with
    | nil => exact absurd (List.append_nil ns).symm hproper
    | cons m rest =>
      rw [absolute_append ns m rest hne]
      exact ⟨m ++ rest.flatMap fun n => slash :: n, by simp⟩

end Foundations.UnixPath
