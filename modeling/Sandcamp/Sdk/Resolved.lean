import Sandcamp.Foundations.Nesting
import Sandcamp.Sdk.Images

/-!
# What `resolveImageSet` returns

The resolved images in the order of the image set, one for each name, and the paths they
are mounted at.
-/

namespace Sandcamp.Sdk
open Foundations Foundations.UnixPath

/-! ### Names -/

theorem matchString_cons (pattern : Pattern) (name : Bytes)
    (h : pattern.matchString name = true) :
    ∃ b bs, name = b :: bs ∧ pattern.first b = true ∧ (∀ c ∈ bs, pattern.rest c = true) ∧
      ∀ limit, pattern.limit = some limit → bs.length ≤ limit := by
  cases name with
  | nil => cases h
  | cons b bs =>
    simp only [Pattern.matchString, Bool.and_eq_true, List.all_eq_true] at h
    refine ⟨b, bs, rfl, h.1.1, h.1.2, ?_⟩
    intro limit hlimit
    have hall := h.2
    rw [hlimit] at hall
    simpa using hall

/-- A process name is an ordinary path element. -/
theorem properName_of_processName (name : Bytes)
    (h : processNamePattern.matchString name = true) : ProperName name := by
  obtain ⟨b, bs, rfl, hfirst, hrest, -⟩ := matchString_cons _ _ h
  have hdot : isAsciiAlphanumeric 46 = false := by decide
  have hslash : isAsciiAlphanumeric slash = false := by decide
  have hslashWord : wordByte slash = false := by decide
  have hfirst' : isAsciiAlphanumeric b = true := hfirst
  refine ⟨by simp, ?_, ?_, ?_⟩
  · intro he
    obtain rfl : b = 46 := (List.cons.inj he).1
    rw [hdot] at hfirst'
    cases hfirst'
  · intro he
    obtain rfl : b = 46 := (List.cons.inj he).1
    rw [hdot] at hfirst'
    cases hfirst'
  · intro hm
    rcases List.mem_cons.mp hm with he | hm
    · rw [← he, hslash] at hfirst'
      cases hfirst'
    · have hword : wordByte slash = true := hrest slash hm
      rw [hslashWord] at hword
      cases hword

/-- The names above every sidecar mount. -/
def sidecarRootNames : List Bytes := [lit "mnt", lit "sandcamp-sidecars"]

theorem sidecarRootNames_proper : ∀ n ∈ sidecarRootNames, ProperName n := by decide

theorem joinClean_sidecar (name : Bytes) (h : processNamePattern.matchString name = true) :
    joinClean [sidecarMountPathRoot, name] = absolute (sidecarRootNames ++ [name]) := by
  have hname := properName_of_processName name h
  have hproper : ∀ n ∈ sidecarRootNames ++ [name], ProperName n := by
    intro n hn
    rcases List.mem_append.mp hn with hn | hn
    · exact sidecarRootNames_proper n hn
    · rw [List.mem_singleton.mp hn]
      exact hname
  have hroot : sidecarMountPathRoot = absolute sidecarRootNames := by decide
  have htext : [slash].intercalate [sidecarMountPathRoot, name] =
      absolute (sidecarRootNames ++ [name]) := by
    rw [absolute_append _ name [] (by decide), hroot]
    simp [List.intercalate, List.intersperse]
  have hparts : [sidecarMountPathRoot, name].filter (· ≠ []) = [sidecarMountPathRoot, name] := by
    have hne : sidecarMountPathRoot ≠ [] := by decide
    simp [hne, hname.1]
  simp only [joinClean, hparts]
  rw [if_neg (by simp), htext, clean_absolute _ hproper]

theorem mountPath_text (name : Bytes) :
    absolute (sidecarRootNames ++ [name]) = lit "/mnt/sandcamp-sidecars/" ++ name := by
  have hroot : absolute sidecarRootNames ++ [slash] = lit "/mnt/sandcamp-sidecars/" := by decide
  rw [absolute_append _ name [] (by decide), ← hroot]
  simp

/-! ### The loop -/

/-- What an accepted sidecar image satisfies. -/
structure AcceptedImage (image : SidecarImage) : Prop where
  name : processNamePattern.matchString image.name = true
  valid : validateImage (lit "sidecar " ++ image.name) image.reference
    image.imageRegistryType = .ok ()

theorem resolveLoop_ok (images : List SidecarImage) (index : ℕ) (result result' : ResolvedImageSet)
    (h : (images.zipIdx index).foldlM resolveSidecarImage result = .ok result') :
    (∀ image ∈ images, AcceptedImage image) ∧
      result' = { result with
        sidecars := result.sidecars ++ images.map fun image => (image.name, image.resolved)
        ordered := result.ordered ++ images.map (·.resolved) } ∧
      ((result.sidecars.map Prod.fst).Nodup → (result'.sidecars.map Prod.fst).Nodup) := by
  induction images generalizing index result with
  | nil =>
    obtain rfl := Except.ok.inj h
    simp
  | cons image images ih =>
    rw [List.zipIdx_cons, foldlM_cons_eq_ok] at h
    obtain ⟨next, hnext, hrest⟩ := h
    simp only [resolveSidecarImage, bind_eq_ok, exists_unit, rejectIf_eq_ok, Except.ok.injEq,
      Bool.not_eq_false, Bool.not_eq_true, Option.isSome_eq_false_iff,
      Option.isNone_iff_eq_none] at hnext
    obtain ⟨hname, hvalid, hfresh, rfl⟩ := hnext
    obtain ⟨hall, rfl, hnodup⟩ := ih (index + 1) _ hrest
    refine ⟨List.forall_mem_cons.mpr ⟨⟨hname, hvalid⟩, hall⟩, by simp, ?_⟩
    intro hstart
    refine hnodup ?_
    rw [List.map_append, List.map_singleton]
    refine List.nodup_append.mpr ⟨hstart, by simp, ?_⟩
    intro a ha b hb he
    obtain rfl := List.mem_singleton.mp hb
    subst he
    obtain ⟨entry, hm, hentry⟩ := List.mem_map.mp ha
    have hne := (List.lookup_eq_none_iff.mp hfresh) entry hm
    simp [hentry] at hne

/-- The resolved image set, spelled out. -/
structure Resolves (images : ImageSet) (resolved : ResolvedImageSet) : Prop where
  runtime : resolved.runtime = ⟨sandcampRuntimeMountName, sandcampRuntimeMountPath,
    images.sandcampRuntime.reference, images.sandcampRuntime.imageRegistryType⟩
  sidecars : resolved.sidecars = images.sidecars.map fun image => (image.name, image.resolved)
  ordered : resolved.ordered = images.sidecars.map (·.resolved)
  accepted : ∀ image ∈ images.sidecars, AcceptedImage image
  nodup : (images.sidecars.map (·.name)).Nodup

theorem resolveImageSet_ok (images : ImageSet) (resolved : ResolvedImageSet)
    (h : resolveImageSet images = .ok resolved) : Resolves images resolved := by
  simp only [resolveImageSet, bind_eq_ok, exists_unit] at h
  obtain ⟨-, hloop⟩ := h
  obtain ⟨hall, rfl, hnodup⟩ := resolveLoop_ok images.sidecars 0 _ resolved hloop
  have hnames := hnodup List.nodup_nil
  refine ⟨rfl, by simp, by simp, hall, ?_⟩
  simpa [Function.comp_def] using hnames

theorem lookup_mem {α : Type} (entries : List (Bytes × α)) (key : Bytes) (value : α)
    (h : entries.lookup key = some value) : (key, value) ∈ entries := by
  induction entries with
  | nil => cases h
  | cons entry entries ih =>
    rw [List.lookup_cons] at h
    cases hkey : key == entry.1 with
    | true =>
      rw [hkey] at h
      obtain rfl := Option.some.inj h
      rw [eq_of_beq hkey]
      exact List.mem_cons_self
    | false =>
      rw [hkey] at h
      exact List.mem_cons_of_mem _ (ih h)

/-- A resolved sidecar is mounted below the sidecar root, under its own name. -/
theorem mountPath_resolved {images : ImageSet} {resolved : ResolvedImageSet}
    (h : Resolves images resolved) (name : Bytes) (hknown : resolved.sidecars.lookup name ≠ none) :
    ∃ image ∈ images.sidecars, image.name = name ∧
      resolved.sidecars.lookup name = some image.resolved ∧
      image.resolved.mountPath = lit "/mnt/sandcamp-sidecars/" ++ name := by
  obtain ⟨found, hfound⟩ := Option.ne_none_iff_exists'.mp hknown
  have hmem := lookup_mem _ _ _ hfound
  rw [h.sidecars] at hmem
  obtain ⟨image, hm, hentry⟩ := List.mem_map.mp hmem
  obtain ⟨rfl, rfl⟩ := Prod.mk.inj hentry
  refine ⟨image, hm, rfl, hfound, ?_⟩
  show joinClean [sidecarMountPathRoot, image.name] = _
  rw [joinClean_sidecar image.name (h.accepted image hm).name, mountPath_text]

/-! ### The mounts -/

def runtimeMount (image : Image) : StorageMount :=
  ⟨sandcampRuntimeMountName, sandcampRuntimeMountPath, true, image.reference,
    image.imageRegistryType⟩

theorem renderMounts_resolved {images : ImageSet} {resolved : ResolvedImageSet}
    (hresolved : resolveImageSet images = .ok resolved) (h : Resolves images resolved) :
    renderMounts images = .ok (runtimeMount images.sandcampRuntime ::
      images.sidecars.map fun image => storageMount image.resolved) := by
  have hordered : resolved.ordered.map storageMount =
      images.sidecars.map fun image => storageMount image.resolved := by
    rw [h.ordered, List.map_map]
    rfl
  have hruntime : storageMount resolved.runtime = runtimeMount images.sandcampRuntime := by
    rw [h.runtime]
    rfl
  unfold renderMounts
  rw [hresolved]
  show Except.ok (storageMount resolved.runtime :: resolved.ordered.map storageMount) = _
  rw [hordered, hruntime]

/-- Two mounts that can stand side by side. -/
def Apart (first second : StorageMount) : Prop :=
  first.name ≠ second.name ∧ ¬Nested (names first.mountPath) (names second.mountPath)

theorem names_sidecarMount {image : SidecarImage} (h : AcceptedImage image) :
    names (storageMount image.resolved).mountPath = sidecarRootNames ++ [image.name] := by
  have hproper : ∀ n ∈ sidecarRootNames ++ [image.name], ProperName n := by
    intro n hn
    rcases List.mem_append.mp hn with hn | hn
    · exact sidecarRootNames_proper n hn
    · rw [List.mem_singleton.mp hn]
      exact properName_of_processName image.name h.name
  show names (joinClean [sidecarMountPathRoot, image.name]) = _
  rw [joinClean_sidecar image.name h.name, names_absolute _ hproper]

theorem apart_runtime {image : SidecarImage} (runtime : Image) (h : AcceptedImage image) :
    Apart (runtimeMount runtime) (storageMount image.resolved) := by
  have hruntime : names (runtimeMount runtime).mountPath = [lit "mnt", lit "sandcamp"] := by
    show names sandcampRuntimeMountPath = _
    decide
  have hne : lit "sandcamp" ≠ lit "sandcamp-sidecars" := by decide
  constructor
  · -- the names differ in the byte behind "sandcamp-"
    intro hname
    have hbyte := congrArg (fun name : Bytes => name[9]?) hname
    have hleft : (runtimeMount runtime).name[9]? = some 114 := by
      show sandcampRuntimeMountName[9]? = some 114
      decide
    have hright : (storageMount image.resolved).name[9]? = some 115 := by
      show (sidecarMountNamePrefix ++ image.name)[9]? = some 115
      rw [List.getElem?_append_left (by decide)]
      decide
    simp only [hleft, hright] at hbyte
    cases hbyte
  · rw [hruntime, names_sidecarMount h, sidecarRootNames]
    rintro (hstart | hstart)
    · have hsecond := (List.cons_prefix_cons.mp (List.cons_prefix_cons.mp hstart).2).1
      exact hne hsecond
    · have hsecond := (List.cons_prefix_cons.mp (List.cons_prefix_cons.mp hstart).2).1
      exact hne hsecond.symm

theorem apart_sidecars {first second : SidecarImage} (hfirst : AcceptedImage first)
    (hsecond : AcceptedImage second) (hne : first.name ≠ second.name) :
    Apart (storageMount first.resolved) (storageMount second.resolved) := by
  constructor
  · intro hname
    exact hne (List.append_cancel_left hname)
  · have hlength : (sidecarRootNames ++ [first.name]).length =
        (sidecarRootNames ++ [second.name]).length := by simp
    have hnames : sidecarRootNames ++ [first.name] ≠ sidecarRootNames ++ [second.name] := by
      intro he
      have hlast := List.append_cancel_left he
      exact hne (List.cons.inj hlast).1
    rw [names_sidecarMount hfirst, names_sidecarMount hsecond]
    rintro (hstart | hstart)
    · exact hnames (hstart.eq_of_length hlength)
    · exact hnames (hstart.eq_of_length hlength.symm).symm

theorem mounts_apart {images : ImageSet} {resolved : ResolvedImageSet}
    (h : Resolves images resolved) :
    (runtimeMount images.sandcampRuntime ::
      images.sidecars.map fun image => storageMount image.resolved).Pairwise Apart := by
  refine List.pairwise_cons.mpr ⟨?_, ?_⟩
  · intro mount hm
    obtain ⟨image, himage, rfl⟩ := List.mem_map.mp hm
    exact apart_runtime images.sandcampRuntime (h.accepted image himage)
  · have hnames : images.sidecars.Pairwise fun first second => first.name ≠ second.name :=
      List.pairwise_map.mp h.nodup
    refine List.pairwise_map.mpr (hnames.imp_of_mem ?_)
    intro first second hfirst hsecond hne
    exact apart_sidecars (h.accepted first hfirst) (h.accepted second hsecond) hne

instance : Std.Symm Apart where
  symm _ _ h := ⟨h.1.symm, fun hn => h.2 hn.symm⟩

theorem mountPath_injective {mounts : List StorageMount} (h : mounts.Pairwise Apart)
    {first second : StorageMount} (hfirst : first ∈ mounts) (hsecond : second ∈ mounts)
    (hpath : first.mountPath = second.mountPath) : first = second := by
  by_contra hne
  have happart := h.forall hfirst hsecond hne
  refine happart.2 ?_
  rw [hpath]
  exact nested_self _

end Sandcamp.Sdk
