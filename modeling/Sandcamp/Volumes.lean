import Mathlib.Data.List.Nodup
import Sandcamp.Payload

/-!
# The volumes and the payload of one image set

`RenderMounts` and `RenderStart` are two calls. The root directories in the payload of the
second one are the paths at which the mounts of the first one stand.
-/

namespace Sandcamp.Volumes
open Foundations Foundations.UnixPath Sandcamp.Sdk Sandcamp.Reading Sandcamp.Agreement
open Sandcamp.Payload

/-! ### Root directories in a payload -/

def rootfsOf : Json Bytes → Option Bytes
  | .object members =>
    match members.lookup (lit "rootfs") with
    | some (.string rootfs) => some rootfs
    | _ => none
  | _ => none

/-- The root directories of the sidecars in a decoded payload, in their order. -/
def rootfsList : Json Bytes → Option (List Bytes)
  | .object members =>
    match members.lookup (lit "sidecars") with
    | some (.array sidecars) => sidecars.mapM rootfsOf
    | _ => none
  | _ => none

/-- The root directories of the sidecars in a value of SANDCAMP_SPEC. -/
def encodedRootfs (payload : Bytes) : Option (List Bytes) := do
  let text ← Base64.decode payload
  let tree ← Json.readText text
  rootfsList (tree.map Utf8.repair)

theorem lookup_mapMembers (f : Bytes → Bytes) (members : Members) (key : Bytes)
    (hkeys : ∀ m ∈ members, f m.1 = m.1) :
    (Json.mapMembers f members).lookup key = (members.lookup key).map (Json.map f) := by
  rw [Json.mapMembers_eq]
  induction members with
  | nil => rfl
  | cons m members ih =>
    have hkey := hkeys m List.mem_cons_self
    have hrest := ih fun m' hm => hkeys m' (List.mem_cons_of_mem _ hm)
    rw [List.map_cons, List.lookup_cons, List.lookup_cons, hkey, hrest]
    cases key == m.1 with
    | true => rfl
    | false => rfl

section Map
variable (f : Bytes → Bytes) (hascii : ∀ s : Bytes, (∀ b ∈ s, b < 0x80) → f s = s)
include hascii

theorem rootfsOf_sidecar (process : RuntimeSidecar) :
    rootfsOf (process.json.map f) = some (f process.rootFS) := by
  have hkeysIn := keysIn_append (keysIn_common process.toRuntimeProcess)
    (keysIn_sidecarRest process)
  have hkeys : ∀ m ∈ process.toRuntimeProcess.members ++ sidecarRest process, f m.1 = m.1 := by
    intro m hm
    have hfields : ∀ field ∈ commonFields ++ restFields, ∀ b ∈ field, b < 0x80 := by decide +kernel
    exact hascii _ (hfields m.1 (hkeysIn.subset (List.mem_map_of_mem hm)))
  have hlookup : (process.toRuntimeProcess.members ++ sidecarRest process).lookup
      (lit "rootfs") = some (.string process.rootFS) := by
    rw [lookup_append, lookup_absent _ _ _ (keysIn_common _) (by decide), Option.none_or]
    exact (lookup_sidecarRest process).1
  have hmapped := lookup_mapMembers f _ (lit "rootfs") hkeys
  rw [hlookup, Option.map_some, Json.map] at hmapped
  rw [sidecar_json, Json.map, rootfsOf, hmapped]

theorem rootfsList_spec (spec : Sdk.Spec) (images : ResolvedImageSet) :
    rootfsList ((toRuntimeSpec spec images).json.map f) =
      some (spec.sidecars.map fun process => f (images.mountPath process.name)) := by
  have hsidecars := mapM_map_eq rootfsOf
    (fun process => (toRuntimeSidecar process (images.mountPath process.name)).json.map f)
    (fun process => f (images.mountPath process.name)) spec.sidecars
    fun process => rootfsOf_sidecar f hascii (toRuntimeSidecar process _)
  have hlookup : (Json.mapMembers f (member "version" (int (toRuntimeSpec spec images).version) ++
      member "sidecars" (.array ((toRuntimeSpec spec images).sidecars.map RuntimeSidecar.json)) ++
      member "main" (.array ((toRuntimeSpec spec images).main.map RuntimeMain.json)))).lookup
        (lit "sidecars") =
      some (.array (spec.sidecars.map fun process =>
        (toRuntimeSidecar process (images.mountPath process.name)).json.map f)) := by
    rw [mapMembers_append, mapMembers_append, mapMembers_member f hascii "version" _ rfl,
      mapMembers_member f hascii "sidecars" _ rfl, mapMembers_member f hascii "main" _ rfl]
    simp only [lookup_append, lookup_member, String.reduceEq, if_true, if_false, Option.none_or,
      Option.some_or, Json.map, Json.mapItems_eq, toRuntimeSpec, List.map_map]
    rfl
  rw [RuntimeSpec.json, Json.map, rootfsList, hlookup]
  exact hsidecars

end Map

/-- A value of SANDCAMP_SPEC holds the mount path of every sidecar. -/
theorem encodedRootfs_encodeSpec (replacement : Json.Replacement) (spec : Sdk.Spec)
    (images : ResolvedImageSet)
    (hpaths : ∀ process ∈ spec.sidecars, ∀ b ∈ images.mountPath process.name, b < 0x80) :
    encodedRootfs (encodeSpec replacement spec images) =
      some (spec.sidecars.map fun process => images.mountPath process.name) := by
  have hascii : ∀ s : Bytes, (∀ b ∈ s, b < 0x80) → Utf8.replaced s = s :=
    fun s hs => Utf8.replaced_valid (Utf8.valid_of_ascii s hs)
  have hrepaired : ((toRuntimeSpec spec images).json.map replacement.pieces).map Utf8.repair =
      (toRuntimeSpec spec images).json.map Utf8.replaced :=
    Json.map_map_within replacement.pieces Utf8.repair _ _ SmallNumber
      (fun s _ => replacement.repair_pieces s) 5 _ (within_any spec images)
  have hsame : (spec.sidecars.map fun process =>
        Utf8.replaced (images.mountPath process.name)) =
      spec.sidecars.map fun process => images.mountPath process.name :=
    List.map_congr_left fun process hm => hascii _ (hpaths process hm)
  unfold encodedRootfs encodeSpec marshal
  rw [Base64.decode_encode, Option.bind_eq_bind, Option.bind_some,
    Json.readText_write SmallNumber 5 _ (within_pieces replacement spec images),
    Option.bind_eq_bind, Option.bind_some, hrepaired, rootfsList_spec _ hascii, hsame]

/-! ### The mounts -/

/-- The mount of an image. -/
def MountOf (image : SidecarImage) (mount : StorageMount) : Prop :=
  mount.readOnly = true ∧ mount.reference = image.reference ∧
    mount.imageRegistryType = image.imageRegistryType

/-- The path is that of exactly one mount, the one of the image with this name. -/
def MountedAs (images : ImageSet) (mounts : List StorageMount) (name path : Bytes) : Prop :=
  ∃ image ∈ images.sidecars, (∀ other ∈ images.sidecars, other.name = name ↔ other = image) ∧
    ∃ mount ∈ mounts, MountOf image mount ∧ ∀ other ∈ mounts, other.mountPath = path ↔ other = mount

theorem image_unique {images : ImageSet} {resolved : ResolvedImageSet}
    (h : Resolves images resolved) (image : SidecarImage) (hm : image ∈ images.sidecars)
    (other : SidecarImage) (hother : other ∈ images.sidecars) :
    other.name = image.name ↔ other = image := by
  constructor
  · intro hname
    exact List.inj_on_of_nodup_map h.nodup hother hm hname
  · rintro rfl
    rfl

/-- The mounts of an image set and the payloads it is used for agree. -/
theorem renderMounts_agrees (replacement : Json.Replacement) (images : ImageSet) (spec : Sdk.Spec)
    (configuration : CustomConfiguration)
    (h : renderStart replacement images spec = .ok configuration) :
    ∃ runtime sidecars, renderMounts images = .ok (runtime :: sidecars) ∧
      runtime = runtimeMount images.sandcampRuntime ∧
      List.Forall₂ MountOf images.sidecars sidecars ∧
      (runtime :: sidecars).Pairwise Apart ∧
      ∃ paths, encodedRootfs (payload configuration) = some paths ∧
        List.Forall₂ (fun process path =>
          MountedAs images (runtime :: sidecars) process.name path) spec.sidecars paths := by
  obtain ⟨resolved, hresolves, hresolved, haccepted, hknown, -, henv⟩ :=
    renderStart_ok replacement images spec configuration h
  have happart := mounts_apart hresolves
  have hpath : ∀ process ∈ spec.sidecars,
      resolved.mountPath process.name = lit "/mnt/sandcamp-sidecars/" ++ process.name :=
    fun process hm => mountPath_known hresolves process.name (hknown process hm)
  have hascii : ∀ process ∈ spec.sidecars, ∀ b ∈ resolved.mountPath process.name, b < 0x80 := by
    intro process hm
    have hroot : ∀ b ∈ lit "/mnt/sandcamp-sidecars/", b < 0x80 := ascii_of_all rfl
    rw [hpath process hm]
    exact List.forall_mem_append.mpr
      ⟨hroot, processName_ascii process.name (haccepted.sidecars process hm).common.name⟩
  refine ⟨_, _, renderMounts_resolved hresolved hresolves, rfl, ?_, happart,
    spec.sidecars.map fun process => resolved.mountPath process.name, ?_, ?_⟩
  · rw [List.forall₂_map_right_iff]
    exact List.forall₂_same.mpr fun image _ => ⟨rfl, rfl, rfl⟩
  · rw [payload_of_env henv]
    exact encodedRootfs_encodeSpec replacement spec resolved hascii
  · rw [List.forall₂_map_right_iff]
    refine List.forall₂_same.mpr fun process hm => ?_
    obtain ⟨image, himage, hname, -, hmounted⟩ :=
      mountPath_resolved hresolves process.name (hknown process hm)
    have hmem : storageMount image.resolved ∈ runtimeMount images.sandcampRuntime ::
        images.sidecars.map fun image => storageMount image.resolved :=
      List.mem_cons_of_mem _ (List.mem_map_of_mem himage)
    refine ⟨image, himage, ?_, storageMount image.resolved, hmem, ⟨rfl, rfl, rfl⟩, ?_⟩
    · rw [← hname]
      exact image_unique hresolves image himage
    · intro other hother
      rw [hpath process hm, ← hmounted]
      constructor
      · exact mountPath_injective happart hother hmem
      · rintro rfl
        rfl

/-- A second sidecar, from an image of its own. -/
def cacheSidecar : Sdk.Process :=
  { webProxy with
    name := lit "cache"
    command := [lit "/bin/cache"]
    mounts := []
    diskMounts := [] }

def cachedImages : ImageSet :=
  { webImages with
    sidecars := ⟨lit "cache", lit "registry/cache:2", imageRegistryPersonal⟩ :: webImages.sidecars }

/-- The images stand in another order than the sidecars. -/
def cachedSpec : Sdk.Spec := ⟨[webProxy, cacheSidecar], [webMain]⟩

theorem renderMounts_agrees_web : ∃ configuration,
    renderStart .literal cachedImages cachedSpec = .ok configuration ∧
    ∃ runtime sidecars, renderMounts cachedImages = .ok (runtime :: sidecars) ∧
      runtime = runtimeMount cachedImages.sandcampRuntime ∧
      List.Forall₂ MountOf cachedImages.sidecars sidecars ∧
      (runtime :: sidecars).Pairwise Apart ∧
      ∃ paths, encodedRootfs (payload configuration) = some paths ∧
        List.Forall₂ (fun process path =>
          MountedAs cachedImages (runtime :: sidecars) process.name path) cachedSpec.sidecars
            paths := by
  have hrender : (renderStart .literal cachedImages cachedSpec).isOk = true := by decide +kernel
  cases h : renderStart .literal cachedImages cachedSpec with
  | error e =>
    rw [h] at hrender
    cases hrender
  | ok configuration =>
    exact ⟨configuration, rfl, renderMounts_agrees .literal cachedImages cachedSpec configuration h⟩

end Sandcamp.Volumes
