import Sandcamp.Foundations.Bytes

/-!
# Unix paths by component

A path is a byte string; what it denotes is its list of components. `components`
follows the documented behaviour of `std::path::Path::components` on Unix:
repeated separators, a trailing separator and `.` components are skipped (a
leading `.` of a relative path is kept), `..` is kept. Equality, `starts_with`
and `is_absolute` of Rust paths are all statements about components.
-/

namespace Foundations.UnixPath
open Foundations

inductive Component where
  | rootDir
  | curDir
  | parentDir
  | normal (name : Bytes)
  deriving DecidableEq, Repr

/-- The `.` piece. -/
def dot : Bytes := [46]

/-- The `..` piece. -/
def dotDot : Bytes := [46, 46]

/-- The component one piece between separators stands for, if any. -/
def pieceComponent (piece : Bytes) : Option Component :=
  if piece = [] ∨ piece = dot then none
  else if piece = dotDot then some .parentDir
  else some (.normal piece)

def hasRoot (p : Bytes) : Bool := p.head? == some slash

def components (p : Bytes) : List Component :=
  let body := (p.splitOn slash).filterMap pieceComponent
  if hasRoot p then .rootDir :: body
  else if (p.splitOn slash).head? = some dot then .curDir :: body
  else body

/-- `Path::is_absolute`. -/
def isAbsolute (p : Bytes) : Bool := hasRoot p

/-- `Path::eq`. -/
def pathEq (p q : Bytes) : Bool := components p == components q

/-- `Path::starts_with`. -/
def startsWith (p base : Bytes) : Bool := (components base).isPrefixOf (components p)

/-- Root and ordinary names only: no `.` and no `..` is left. -/
def Component.plain : Component → Bool
  | .rootDir | .normal _ => true
  | .curDir | .parentDir => false

/-- The ordinary names of a path, in order. -/
def names (p : Bytes) : List Bytes :=
  (components p).filterMap fun
    | .normal name => some name
    | _ => none

/-- An ordinary name: what a directory entry may be called. -/
def ProperName (name : Bytes) : Prop :=
  name ≠ [] ∧ name ≠ dot ∧ name ≠ dotDot ∧ slash ∉ name

instance (name : Bytes) : Decidable (ProperName name) :=
  inferInstanceAs (Decidable (_ ∧ _ ∧ _ ∧ _))

theorem pieceComponent_proper (name : Bytes) (h : ProperName name) :
    pieceComponent name = some (.normal name) := by
  simp only [pieceComponent]
  rw [if_neg (by simp [h.1, h.2.1]), if_neg h.2.2.1]

theorem slash_not_mem_pieces (p : Bytes) : ∀ piece ∈ p.splitOn slash, slash ∉ piece := by
  induction p with
  | nil => simp
  | cons b bs ih =>
    intro piece hpiece
    rw [List.splitOn_cons_eq_if_modifyHead] at hpiece
    split_ifs at hpiece with hb
    · rcases List.mem_cons.mp hpiece with rfl | hm
      · exact List.not_mem_nil
      · exact ih piece hm
    · cases hs : bs.splitOn slash with
      | nil => exact absurd hs (List.splitOn_ne_nil slash bs)
      | cons first rest =>
        rw [hs] at hpiece ih
        rcases List.mem_cons.mp hpiece with rfl | hm
        · intro hmem
          rcases List.mem_cons.mp hmem with he | hin
          · exact hb (by simp [he])
          · exact ih first List.mem_cons_self hin
        · exact ih piece (List.mem_cons_of_mem _ hm)

theorem names_proper (p : Bytes) : ∀ name ∈ names p, ProperName name := by
  intro name hname
  have hcomp : Component.normal name ∈ components p := by
    simp only [names, List.mem_filterMap] at hname
    obtain ⟨c, hc, hn⟩ := hname
    cases c with
    | normal n => rwa [← Option.some.inj hn]
    | rootDir => cases hn
    | curDir => cases hn
    | parentDir => cases hn
  have hbody : Component.normal name ∈ (p.splitOn slash).filterMap pieceComponent := by
    simp only [components] at hcomp
    split_ifs at hcomp
    · simpa using hcomp
    · simpa using hcomp
    · exact hcomp
  simp only [List.mem_filterMap] at hbody
  obtain ⟨piece, hpiece, hp⟩ := hbody
  simp only [pieceComponent] at hp
  split_ifs at hp with h1 h2
  · cases hp
  · have he : piece = name := Component.normal.inj (Option.some.inj hp)
    subst he
    exact ⟨fun h => h1 (Or.inl h), fun h => h1 (Or.inr h), h2,
      slash_not_mem_pieces p piece hpiece⟩

/-! ### Absolute paths written from names -/

/-- `/a/b/c`, and `/` for no name at all. -/
def absolute (ns : List Bytes) : Bytes :=
  if ns = [] then [slash] else ns.flatMap fun n => slash :: n

theorem absolute_nil : absolute [] = [slash] := rfl

theorem absolute_cons (n : Bytes) (ns : List Bytes) :
    absolute (n :: ns) = (n :: ns).flatMap fun n => slash :: n := rfl

theorem hasRoot_absolute (ns : List Bytes) : hasRoot (absolute ns) = true := by
  cases ns <;> rfl

theorem splitOn_append_slash (p q : Bytes) :
    (p ++ slash :: q).splitOn slash = p.splitOn slash ++ q.splitOn slash := by
  induction p with
  | nil =>
    rw [List.nil_append, List.splitOn_cons_eq_if_modifyHead, if_pos (by simp)]
    rfl
  | cons b bs ih =>
    rw [List.cons_append, List.splitOn_cons_eq_if_modifyHead, List.splitOn_cons_eq_if_modifyHead, ih]
    cases hs : bs.splitOn slash with
    | nil => exact absurd hs (List.splitOn_ne_nil slash bs)
    | cons first rest => split_ifs <;> rfl

theorem splitOn_of_not_mem (name : Bytes) (h : slash ∉ name) : name.splitOn slash = [name] := by
  have hname : ∀ x ∈ name, (x == slash) = false := by
    intro x hx
    have hne : x ≠ slash := fun he => h (he ▸ hx)
    simpa using hne
  rw [List.splitOn_eq_splitOnP]
  exact List.splitOnP_eq_singleton hname

theorem splitOn_flatMap (ns : List Bytes) (h : ∀ n ∈ ns, slash ∉ n) :
    (ns.flatMap fun n => slash :: n).splitOn slash = [] :: ns := by
  induction ns with
  | nil => rfl
  | cons n ns ih =>
    have hn : (slash :: n).splitOn slash = [[], n] := by
      have hsplit := splitOn_append_slash [] n
      rwa [List.nil_append, splitOn_of_not_mem n (h n List.mem_cons_self)] at hsplit
    have hrest := ih fun m hm => h m (List.mem_cons_of_mem _ hm)
    cases ns with
    | nil =>
      rw [List.flatMap_cons, List.flatMap_nil, List.append_nil]
      exact hn
    | cons m ms =>
      rw [List.flatMap_cons, List.cons_append] at hrest
      have hcut := splitOn_append_slash [] (m ++ ms.flatMap fun n => slash :: n)
      rw [List.nil_append, hrest] at hcut
      have htail : (m ++ ms.flatMap fun n => slash :: n).splitOn slash = m :: ms :=
        (List.cons.inj hcut).2.symm
      show ((slash :: n) ++ slash :: (m ++ ms.flatMap fun n => slash :: n)).splitOn slash = _
      rw [splitOn_append_slash, hn, htail]
      rfl

theorem filterMap_pieces_proper (ns : List Bytes) (h : ∀ n ∈ ns, ProperName n) :
    ns.filterMap pieceComponent = ns.map Component.normal := by
  induction ns with
  | nil => rfl
  | cons n ns ih =>
    rw [List.filterMap_cons, pieceComponent_proper n (h n List.mem_cons_self),
      ih fun m hm => h m (List.mem_cons_of_mem _ hm)]
    rfl

theorem components_absolute (ns : List Bytes) (h : ∀ n ∈ ns, ProperName n) :
    components (absolute ns) = .rootDir :: ns.map Component.normal := by
  simp only [components, hasRoot_absolute, if_true]
  congr 1
  cases ns with
  | nil => rfl
  | cons n ns =>
    rw [absolute_cons, splitOn_flatMap _ fun m hm => (h m hm).2.2.2, List.filterMap_cons]
    exact filterMap_pieces_proper (n :: ns) h

/-! ### Clean absolute paths -/

/-- An absolute path none of whose components is `.` or `..`. -/
def cleanAbsolute (p : Bytes) : Bool := isAbsolute p && (components p).all Component.plain

theorem components_of_cleanAbsolute (p : Bytes) (h : cleanAbsolute p = true) :
    components p = .rootDir :: (names p).map Component.normal := by
  simp only [cleanAbsolute, isAbsolute, Bool.and_eq_true] at h
  obtain ⟨hroot, hall⟩ := h
  simp only [names]
  simp only [components, hroot, if_true] at hall ⊢
  congr 1
  generalize hb : (p.splitOn slash).filterMap pieceComponent = body at hall ⊢
  have hnotroot : Component.rootDir ∉ body := by
    rw [← hb]
    intro hm
    obtain ⟨piece, -, hp⟩ := List.mem_filterMap.mp hm
    simp only [pieceComponent] at hp
    split_ifs at hp <;> cases hp
  simp only [List.all_cons, List.filterMap_cons] at hall ⊢
  have hplain : body.all Component.plain = true := (Bool.and_eq_true _ _ ▸ hall).2
  clear hb hall
  induction body with
  | nil => rfl
  | cons c cs ih =>
    simp only [List.all_cons, Bool.and_eq_true] at hplain
    have hcs := ih (fun hm => hnotroot (List.mem_cons_of_mem _ hm)) hplain.2
    cases c with
    | normal name =>
      simp only [List.filterMap_cons, List.map_cons]
      exact congrArg _ hcs
    | rootDir => exact absurd List.mem_cons_self hnotroot
    | curDir => cases hplain.1
    | parentDir => cases hplain.1

theorem pathEq_iff (p q : Bytes) (hp : cleanAbsolute p = true) (hq : cleanAbsolute q = true) :
    pathEq p q = true ↔ names p = names q := by
  simp only [pathEq, beq_iff_eq]
  constructor
  · intro h
    simp only [names, h]
  · intro h
    rw [components_of_cleanAbsolute p hp, components_of_cleanAbsolute q hq, h]

theorem map_normal_prefix (xs ys : List Bytes) :
    xs.map Component.normal <+: ys.map Component.normal ↔ xs <+: ys :=
  ⟨fun h => by
    have hinj : Function.Injective Component.normal := fun a b h => Component.normal.inj h
    exact (List.prefix_map_iff_of_injective hinj).mp h,
    fun h => h.map _⟩

theorem startsWith_iff (p q : Bytes) (hp : cleanAbsolute p = true) (hq : cleanAbsolute q = true) :
    startsWith p q = true ↔ names q <+: names p := by
  simp only [startsWith, List.isPrefixOf_iff_prefix]
  rw [components_of_cleanAbsolute p hp, components_of_cleanAbsolute q hq, List.cons_prefix_cons,
    map_normal_prefix]
  simp

theorem cleanAbsolute_absolute (ns : List Bytes) (h : ∀ n ∈ ns, ProperName n) :
    cleanAbsolute (absolute ns) = true := by
  simp only [cleanAbsolute, isAbsolute, hasRoot_absolute, components_absolute ns h,
    Bool.true_and, List.all_cons, List.all_map, Component.plain]
  simp [Component.plain]

theorem names_absolute (ns : List Bytes) (h : ∀ n ∈ ns, ProperName n) :
    names (absolute ns) = ns := by
  simp only [names, components_absolute ns h, List.filterMap_cons, List.filterMap_map]
  simp

/-- The root is the only clean absolute path without names. -/
theorem pathEq_root_iff (p : Bytes) (hp : cleanAbsolute p = true) :
    pathEq p [slash] = true ↔ names p = [] := by
  have h := pathEq_iff p (absolute []) hp (cleanAbsolute_absolute [] (by simp))
  rwa [absolute_nil, ← absolute_nil, names_absolute [] (by simp)] at h

/-! ### Joining and splitting -/

/-- `PathBuf::push`, and `join` on a copy. -/
def push (p component : Bytes) : Bytes :=
  if isAbsolute component then component
  else if p = [] ∨ p.getLast? = some slash then p ++ component
  else p ++ slash :: component

def Component.text : Component → Bytes
  | .rootDir => [slash]
  | .curDir => dot
  | .parentDir => dotDot
  | .normal name => name

/-- The path written from components. -/
def fromComponents (cs : List Component) : Bytes := cs.foldl (fun p c => push p c.text) []

/-- `Path::strip_prefix`: the components that are left. -/
def stripPrefix (p base : Bytes) : Option (List Component) :=
  if startsWith p base then some ((components p).drop (components base).length) else none

/-- `Path::parent`. -/
def parent (p : Bytes) : Option (List Component) :=
  match (components p).getLast? with
  | none | some .rootDir => none
  | some _ => some (components p).dropLast

/-- `Path::file_name`. -/
def fileName (p : Bytes) : Option Bytes :=
  match (components p).getLast? with
  | some (.normal name) => some name
  | _ => none

theorem splitOn_snoc (p name : Bytes) (h : slash ∉ name) :
    (p ++ slash :: name).splitOn slash = p.splitOn slash ++ [name] := by
  rw [splitOn_append_slash, splitOn_of_not_mem name h]

theorem components_snoc (p name : Bytes) (h : slash ∉ name) (hp : p ≠ []) :
    components (p ++ slash :: name) = components p ++ (pieceComponent name).toList := by
  have hroot : hasRoot (p ++ slash :: name) = hasRoot p := by
    cases p with
    | nil => exact absurd rfl hp
    | cons b bs => rfl
  have hhead : (p.splitOn slash ++ [name]).head? = (p.splitOn slash).head? := by
    cases hs : p.splitOn slash with
    | nil => exact absurd hs (List.splitOn_ne_nil slash p)
    | cons first rest => rfl
  have hbody : ([name].filterMap pieceComponent) = (pieceComponent name).toList := by
    cases hc : pieceComponent name <;> simp [hc]
  simp only [components, splitOn_snoc p name h, hroot, hhead, List.filterMap_append, hbody]
  split_ifs <;> simp

theorem not_absolute_of_proper (name : Bytes) (h : ProperName name) : isAbsolute name = false := by
  cases name with
  | nil => rfl
  | cons b bs =>
    have hb : b ≠ slash := fun he => h.2.2.2 (he ▸ List.mem_cons_self)
    simp [isAbsolute, hasRoot, hb]

theorem isAbsolute_push {p name : Bytes} (hp : p ≠ []) (hname : ProperName name) :
    isAbsolute (push p name) = isAbsolute p := by
  unfold push
  rw [if_neg (by rw [not_absolute_of_proper name hname]; decide)]
  cases p with
  | nil => exact absurd rfl hp
  | cons b bs => split <;> rfl

theorem components_push (p name : Bytes) (hp : p ≠ []) (h : ProperName name) :
    components (push p name) = components p ++ [.normal name] := by
  have hpiece : (pieceComponent name).toList = [Component.normal name] := by
    rw [pieceComponent_proper name h, Option.toList_some]
  unfold push
  rw [if_neg (by simp [not_absolute_of_proper name h])]
  split_ifs with hend
  · have hlast : p.getLast? = some slash := hend.resolve_left hp
    obtain ⟨q, rfl⟩ := List.getLast?_eq_some_iff.mp hlast
    have hshape : q ++ [slash] ++ name = q ++ slash :: name := by simp
    rw [hshape]
    cases q with
    | nil =>
      have hs := splitOn_snoc [] name h.2.2.2
      have hslash : components ([] ++ [slash]) = [.rootDir] := by decide
      have hroot : hasRoot ([] ++ slash :: name) = true := rfl
      rw [hslash, components, hs, hroot, if_pos rfl, List.filterMap_append,
        filterMap_pieces_proper [name] (by simpa using h)]
      rfl
    | cons b bs =>
      have hempty := components_snoc (b :: bs) [] (by simp) (by simp)
      have hnone : (pieceComponent []).toList = [] := rfl
      rw [components_snoc (b :: bs) name h.2.2.2 (by simp), hpiece, hempty, hnone, List.append_nil]
  · rw [components_snoc p name h.2.2.2 hp, hpiece]

theorem push_ne_nil (p name : Bytes) (hp : p ≠ []) (h : ProperName name) : push p name ≠ [] := by
  intro he
  have hc := components_push p name hp h
  rw [he] at hc
  have hnil : components [] = [] := by decide
  rw [hnil] at hc
  exact List.append_ne_nil_of_right_ne_nil _ (by simp) hc.symm

theorem components_foldl_push (ns : List Bytes) (p : Bytes) (hp : p ≠ [])
    (h : ∀ n ∈ ns, ProperName n) :
    components (ns.foldl push p) = components p ++ ns.map Component.normal := by
  induction ns generalizing p with
  | nil => simp
  | cons n ns ih =>
    have hn := h n List.mem_cons_self
    rw [List.foldl_cons, ih (push p n) (push_ne_nil p n hp hn)
      fun m hm => h m (List.mem_cons_of_mem _ hm), components_push p n hp hn]
    simp

theorem stripPrefix_of_components {p base : Bytes} {cs : List Component}
    (h : components p = components base ++ cs) : stripPrefix p base = some cs := by
  have hstarts : startsWith p base = true := by
    rw [startsWith, List.isPrefixOf_iff_prefix, h]
    exact List.prefix_append _ _
  rw [stripPrefix, if_pos hstarts, h, List.drop_left]

theorem stripPrefix_foldl_push (ns : List Bytes) (p : Bytes) (hp : p ≠ [])
    (h : ∀ n ∈ ns, ProperName n) :
    stripPrefix (ns.foldl push p) p = some (ns.map Component.normal) :=
  stripPrefix_of_components (components_foldl_push ns p hp h)

end Foundations.UnixPath
