import Sandcamp.Sdk.Spec

/-!
# The images of a sandbox (images.go)

`resolveImageSet` checks the runtime image and every sidecar image, and assigns the
mounts. The map from sidecar names to resolved images holds the images in their order:
a name occurs once.
-/

namespace Sandcamp.Sdk
open Foundations Foundations.UnixPath

structure Image where
  reference : Bytes
  imageRegistryType : Bytes
  deriving DecidableEq

structure SidecarImage where
  name : Bytes
  reference : Bytes
  imageRegistryType : Bytes
  deriving DecidableEq

structure ImageSet where
  sandcampRuntime : Image
  sidecars : List SidecarImage
  deriving DecidableEq

structure ResolvedImage where
  mountName : Bytes
  mountPath : Bytes
  reference : Bytes
  imageRegistryType : Bytes
  deriving DecidableEq

structure ResolvedImageSet where
  runtime : ResolvedImage
  sidecars : List (Bytes × ResolvedImage)
  ordered : List ResolvedImage
  deriving DecidableEq

inductive ImageError where
  | reference (label : Bytes)
  | registryType (label : Bytes)
  | sidecarName (index : ℕ)
  | duplicateSidecar (name : Bytes)
  deriving DecidableEq

def imageRegistryPersonal : Bytes := lit "personal"
def imageRegistryEnterprise : Bytes := lit "enterprise"

def sandcampRuntimeMountName : Bytes := lit "sandcamp-runtime"
def sandcampRuntimeMountPath : Bytes := lit "/mnt/sandcamp"
def sidecarMountNamePrefix : Bytes := lit "sandcamp-sidecar-"
def sidecarMountPathRoot : Bytes := lit "/mnt/sandcamp-sidecars"

/-! ### References -/

/-- The characters of `unicode.IsSpace`, in UTF-8. -/
def spaces : List Bytes :=
  [[9], [10], [11], [12], [13], [32], [0xC2, 0x85], [0xC2, 0xA0], [0xE1, 0x9A, 0x80],
    [0xE2, 0x80, 0x80], [0xE2, 0x80, 0x81], [0xE2, 0x80, 0x82], [0xE2, 0x80, 0x83],
    [0xE2, 0x80, 0x84], [0xE2, 0x80, 0x85], [0xE2, 0x80, 0x86], [0xE2, 0x80, 0x87],
    [0xE2, 0x80, 0x88], [0xE2, 0x80, 0x89], [0xE2, 0x80, 0x8A], [0xE2, 0x80, 0xA8],
    [0xE2, 0x80, 0xA9], [0xE2, 0x80, 0xAF], [0xE2, 0x81, 0x9F], [0xE3, 0x80, 0x80]]

def trimLeft : ℕ → Bytes → Bytes
  | 0, text => text
  | fuel + 1, text =>
    match spaces.find? fun space => space.isPrefixOf text with
    | some space => trimLeft fuel (text.drop space.length)
    | none => text

def trimRight : ℕ → Bytes → Bytes
  | 0, text => text
  | fuel + 1, text =>
    match spaces.find? fun space => space.isSuffixOf text with
    | some space => trimRight fuel (text.take (text.length - space.length))
    | none => text

/-- `strings.TrimSpace`. -/
def trimSpace (text : Bytes) : Bytes :=
  trimRight text.length (trimLeft text.length text)

/-- `validateImage` (`images.go:128-138`). -/
def validateImage (label reference registryType : Bytes) : Except ImageError Unit := do
  rejectIf (reference = [] ∨ reference ≠ trimSpace reference ∨ nul ∈ reference)
    (.reference label)
  rejectIf (registryType ≠ imageRegistryPersonal ∧ registryType ≠ imageRegistryEnterprise)
    (.registryType label)

/-- The mount of one sidecar image (`images.go:116-121`). -/
def SidecarImage.resolved (image : SidecarImage) : ResolvedImage where
  mountName := sidecarMountNamePrefix ++ image.name
  mountPath := joinClean [sidecarMountPathRoot, image.name]
  reference := image.reference
  imageRegistryType := image.imageRegistryType

/-- One round of the loop of `resolveImageSet` (`images.go:102-124`). -/
def resolveSidecarImage (result : ResolvedImageSet) (image : SidecarImage × ℕ) :
    Except ImageError ResolvedImageSet := do
  rejectIf (processNamePattern.matchString image.1.name = false) (.sidecarName image.2)
  validateImage (lit "sidecar " ++ image.1.name) image.1.reference image.1.imageRegistryType
  rejectIf ((result.sidecars.lookup image.1.name).isSome) (.duplicateSidecar image.1.name)
  .ok { result with
    sidecars := result.sidecars ++ [(image.1.name, image.1.resolved)]
    ordered := result.ordered ++ [image.1.resolved] }

/-- `resolveImageSet` (`images.go:84-126`). -/
def resolveImageSet (images : ImageSet) : Except ImageError ResolvedImageSet := do
  validateImage (lit "sandcamp runtime") images.sandcampRuntime.reference
    images.sandcampRuntime.imageRegistryType
  let runtime : ResolvedImage :=
    { mountName := sandcampRuntimeMountName
      mountPath := sandcampRuntimeMountPath
      reference := images.sandcampRuntime.reference
      imageRegistryType := images.sandcampRuntime.imageRegistryType }
  images.sidecars.zipIdx.foldlM resolveSidecarImage ⟨runtime, [], []⟩

/-! ### Storage mounts -/

/-- The fields of `ags.StorageMount` that are set. -/
structure StorageMount where
  name : Bytes
  mountPath : Bytes
  readOnly : Bool
  reference : Bytes
  imageRegistryType : Bytes
  deriving DecidableEq

/-- `storageMount` (`images.go:140-152`). -/
def storageMount (image : ResolvedImage) : StorageMount where
  name := image.mountName
  mountPath := image.mountPath
  readOnly := true
  reference := image.reference
  imageRegistryType := image.imageRegistryType

/-- `RenderMounts` (`images.go:71-82`). -/
def renderMounts (images : ImageSet) : Except ImageError (List StorageMount) := do
  let resolved ← resolveImageSet images
  .ok (storageMount resolved.runtime :: resolved.ordered.map storageMount)

end Sandcamp.Sdk
