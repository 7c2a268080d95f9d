import Sandcamp.Agreement
import Sandcamp.Sandrun.Accepted

/-!
# One rule for mount targets in three programs

`validateSidecarMounts` (spec.go:197-266) compares strings, `validate` (spec.rs:205-268)
and `validate_mount_targets` (lib.rs:500-536) compare path components, and each pushes the
standard, disk and bind targets in its own loops. All three refuse a list exactly when two
of its targets are equal or one lies under the other.
-/

namespace Sandcamp.MountTargets
open Foundations Foundations.UnixPath
open Agreement (validPath_of_path)
open Sdk (validAbsolutePath validateSidecarMounts)
open Campd (SidecarProcess sidecarError)
open Sandrun (validateMountTargets validateTargetPaths)

/-! ### Overlaps of a list -/

/-- `b` lies strictly under `a`, component by component. -/
def Ancestor (a b : Bytes) : Prop := ∃ rest, rest ≠ [] ∧ names b = names a ++ rest

def Overlapping (targets : List Bytes) : Prop :=
  ∃ (i j : ℕ) (a b : Bytes), i < j ∧ targets[i]? = some a ∧ targets[j]? = some b ∧
    (a = b ∨ Ancestor a b ∨ Ancestor b a)

theorem nested_iff (a b : Bytes) (ha : validAbsolutePath a = true)
    (hb : validAbsolutePath b = true) :
    Nested (names a) (names b) ↔ a = b ∨ Ancestor a b ∨ Ancestor b a := by
  have hshapeA := ((Sdk.validAbsolutePath_iff a).mp ha).1.2.2
  have hshapeB := ((Sdk.validAbsolutePath_iff b).mp hb).1.2.2
  have hequal : names a = names b → a = b := by
    intro h
    rw [hshapeA, hshapeB, h]
  constructor
  · rintro (⟨rest, hrest⟩ | ⟨rest, hrest⟩)
    · by_cases hnil : rest = []
      · rw [hnil, List.append_nil] at hrest
        exact Or.inl (hequal hrest)
      · exact Or.inr (Or.inl ⟨rest, hnil, hrest.symm⟩)
    · by_cases hnil : rest = []
      · rw [hnil, List.append_nil] at hrest
        exact Or.inl (hequal hrest.symm)
      · exact Or.inr (Or.inr ⟨rest, hnil, hrest.symm⟩)
  · rintro (rfl | ⟨rest, -, hrest⟩ | ⟨rest, -, hrest⟩)
    · exact nested_self _
    · exact Or.inl ⟨rest, hrest.symm⟩
    · exact Or.inr ⟨rest, hrest.symm⟩

theorem unnested_iff (targets : List Bytes) (h : ∀ t ∈ targets, validAbsolutePath t = true) :
    Unnested (targets.map names) ↔ ¬Overlapping targets := by
  rw [Unnested, List.pairwise_map, List.pairwise_iff_getElem]
  constructor
  · rintro hall ⟨i, j, a, b, hij, ha, hb, hover⟩
    obtain ⟨hi, rfl⟩ := List.getElem?_eq_some_iff.mp ha
    obtain ⟨hj, rfl⟩ := List.getElem?_eq_some_iff.mp hb
    have hnested := (nested_iff _ _ (h _ (List.getElem_mem hi)) (h _ (List.getElem_mem hj))).mpr
      hover
    exact hall i j hi hj hij hnested
  · intro hno i j hi hj hij hnested
    have hover := (nested_iff _ _ (h _ (List.getElem_mem hi)) (h _ (List.getElem_mem hj))).mp
      hnested
    exact hno ⟨i, j, _, _, hij, List.getElem?_eq_getElem hi, List.getElem?_eq_getElem hj, hover⟩

/-! ### The errors of the three loops -/

def SdkOverlap (error : Sdk.SpecError) : Prop :=
  ∃ process target previous, error = .diskMountOverlap process target previous ∨
    error = .mountOverlap process target previous

theorem sdk_claimTarget_error (overlap : Bytes → Bytes → Sdk.SpecError) (targets : List Bytes)
    (target : Bytes) (error : Sdk.SpecError)
    (h : Sdk.claimTarget overlap targets target = .error error) :
    ∃ previous, error = overlap target previous := by
  rw [Sdk.claimTarget, bind_eq_error] at h
  rcases h with h | ⟨-, -, h⟩
  · obtain ⟨previous, -, hreject⟩ := forEach_error _ _ _ h
    exact ⟨previous, (rejectIf_eq_error _ _ _ hreject).2⟩
  · cases h

theorem validateSidecarMounts_error (process : Sdk.Process) (error : Sdk.SpecError)
    (hdevice : process.overlayDevice = [] ∨ validAbsolutePath process.overlayDevice = true)
    (hdisk : ∀ target ∈ process.diskMounts, validAbsolutePath target = true)
    (hmounts : ∀ mount ∈ process.mounts,
      validAbsolutePath mount.source = true ∧ validAbsolutePath mount.target = true)
    (h : validateSidecarMounts process = .error error) : SdkOverlap error := by
  rw [validateSidecarMounts, bind_eq_error] at h
  rcases h with h | ⟨-, -, h⟩
  · obtain ⟨⟨hne, hbad⟩, -⟩ := rejectIf_eq_error _ _ _ h
    rw [hdevice.resolve_left hne] at hbad
    cases hbad
  rcases (bind_eq_error _ _ _).mp h with h | ⟨targets, -, h⟩
  · obtain ⟨claimed, mount, hm, hstep⟩ := foldlM_error _ _ _ _ h
    have hvalid := hdisk mount.1 (List.fst_mem_of_mem_zipIdx hm)
    rw [Sdk.claimDiskMount, bind_eq_error] at hstep
    rcases hstep with hstep | ⟨-, -, hstep⟩
    · rw [hvalid] at hstep
      cases (rejectIf_eq_error _ _ _ hstep).1
    · obtain ⟨previous, rfl⟩ := sdk_claimTarget_error _ _ _ _ hstep
      exact ⟨_, _, previous, Or.inl rfl⟩
  rcases (bind_eq_error _ _ _).mp h with h | ⟨-, -, h⟩
  · obtain ⟨claimed, mount, hm, hstep⟩ := foldlM_error _ _ _ _ h
    obtain ⟨hsource, htarget⟩ := hmounts mount.1 (List.fst_mem_of_mem_zipIdx hm)
    rw [Sdk.claimMount, bind_eq_error] at hstep
    rcases hstep with hstep | ⟨-, -, hstep⟩
    · rw [hsource] at hstep
      cases (rejectIf_eq_error _ _ _ hstep).1
    rcases (bind_eq_error _ _ _).mp hstep with hstep | ⟨-, -, hstep⟩
    · rw [htarget] at hstep
      cases (rejectIf_eq_error _ _ _ hstep).1
    · obtain ⟨previous, rfl⟩ := sdk_claimTarget_error _ _ _ _ hstep
      exact ⟨_, _, previous, Or.inr rfl⟩
  · cases h

/-- The complaints of campd about a target and an earlier one. -/
def CampdOverlap (error : Campd.SpecError) : Prop :=
  ∃ name what target previous,
    error = sidecarError name (what ++ lit " target " ++ target ++ lit " is duplicated") ∨
    error = sidecarError name (what ++ lit " target " ++ target ++ lit " overlaps " ++ previous)

theorem campd_claimTarget_error (name what : Bytes) (targets : List Bytes) (target : Bytes)
    (error : Campd.SpecError) (h : Campd.claimTarget name what targets target = .error error) :
    CampdOverlap error := by
  rw [Campd.claimTarget, bind_eq_error] at h
  rcases h with h | ⟨-, -, h⟩
  · obtain ⟨previous, -, hcheck⟩ := forEach_error _ _ _ h
    rcases (bind_eq_error _ _ _).mp hcheck with hreject | ⟨-, -, hreject⟩
    · exact ⟨name, what, target, previous, Or.inl (rejectIf_eq_error _ _ _ hreject).2⟩
    · exact ⟨name, what, target, previous, Or.inr (rejectIf_eq_error _ _ _ hreject).2⟩
  · cases h

theorem validateSidecarFields_error (sidecar : SidecarProcess) (error : Campd.SpecError)
    (hrootfs : Campd.validPath sidecar.rootfs false = true)
    (hdevice : ∀ device, sidecar.overlayDevice = some device →
      Campd.validPath device false = true)
    (huser : ∀ user, sidecar.user = some user → Campd.WellFormedUser user)
    (hdisk : ∀ target ∈ sidecar.diskMounts, Campd.validPath target false = true)
    (hbinds : ∀ bind ∈ sidecar.binds,
      Campd.validPath bind.source false = true ∧ Campd.validPath bind.target false = true)
    (h : Campd.validateSidecarFields sidecar = .error error) : CampdOverlap error := by
  rw [Campd.validateSidecarFields, bind_eq_error] at h
  rcases h with h | ⟨-, -, h⟩
  · rw [hrootfs] at h
    cases (rejectIf_eq_error _ _ _ h).1
  rcases (bind_eq_error _ _ _).mp h with h | ⟨-, -, h⟩
  · obtain ⟨device, hm, hreject⟩ := forEach_error _ _ _ h
    rw [hdevice device (Option.mem_toList.mp hm)] at hreject
    cases (rejectIf_eq_error _ _ _ hreject).1
  rcases (bind_eq_error _ _ _).mp h with h | ⟨-, -, h⟩
  · rw [(Campd.validateUsers_eq_ok sidecar.name sidecar.user).mpr huser] at h
    cases h
  rcases (bind_eq_error _ _ _).mp h with h | ⟨targets, -, h⟩
  · obtain ⟨claimed, target, hm, hstep⟩ := foldlM_error _ _ _ _ h
    rw [Campd.claimDiskMount, bind_eq_error] at hstep
    rcases hstep with hstep | ⟨-, -, hstep⟩
    · rw [hdisk target hm] at hstep
      cases (rejectIf_eq_error _ _ _ hstep).1
    · exact campd_claimTarget_error _ _ _ _ _ hstep
  rcases (bind_eq_error _ _ _).mp h with h | ⟨-, -, h⟩
  · obtain ⟨claimed, bind, hm, hstep⟩ := foldlM_error _ _ _ _ h
    rw [Campd.claimBind, bind_eq_error] at hstep
    rcases hstep with hstep | ⟨-, -, hstep⟩
    · obtain ⟨hsource, htarget⟩ := hbinds bind hm
      rw [hsource, htarget] at hstep
      rcases (rejectIf_eq_error _ _ _ hstep).1 with hbad | hbad
      · cases hbad
      · cases hbad
    · exact campd_claimTarget_error _ _ _ _ _ hstep
  · cases h

def SandrunOverlap (error : Sandrun.ConfigError) : Prop :=
  ∃ target previous, error = .duplicateMountTarget target ∨
    error = .overlappingMountTargets previous target

theorem validateTargetPaths_error (previous targets : List Bytes) (error : Sandrun.ConfigError)
    (h : validateTargetPaths previous targets = .error error) : SandrunOverlap error := by
  induction targets generalizing previous with
  | nil => cases h
  | cons target rest ih =>
    rw [validateTargetPaths, bind_eq_error] at h
    rcases h with h | ⟨-, -, h⟩
    · obtain ⟨earlier, -, hcheck⟩ := forEach_error _ _ _ h
      rcases (bind_eq_error _ _ _).mp hcheck with hreject | ⟨-, -, hreject⟩
      · exact ⟨target, earlier, Or.inl (rejectIf_eq_error _ _ _ hreject).2⟩
      · exact ⟨target, earlier, Or.inr (rejectIf_eq_error _ _ _ hreject).2⟩
    · exact ih (previous ++ [target]) h

/-! ### A declaration around the sidecar -/

/-- The sidecar without the mounts whose targets are in question. -/
def bare (sidecar : SidecarProcess) : SidecarProcess :=
  { sidecar with diskMounts := [], binds := [] }

def declaring (spec : Campd.Spec) (before after : List SidecarProcess)
    (sidecar : SidecarProcess) : Campd.Spec :=
  { spec with sidecars := before ++ sidecar :: after }

/-- Where the declaration is accepted with the bare sidecar, its targets decide alone. -/
theorem validate_declaring (spec : Campd.Spec) (before after : List SidecarProcess)
    (sidecar : SidecarProcess)
    (h : Campd.validate (declaring spec before after (bare sidecar)) = .ok ()) :
    Campd.validate (declaring spec before after sidecar) =
      Campd.validateSidecarFields sidecar := by
  simp only [Campd.validate, bind_eq_ok, exists_unit, declaring] at h
  obtain ⟨hversion, -, seen, hsidecars, last, hmain, hservice, hbudget⟩ := h
  rw [List.foldlM_append, bind_eq_ok] at hsidecars
  obtain ⟨first, hbefore, hrest⟩ := hsidecars
  obtain ⟨second, hbare, hafter⟩ := (foldlM_cons_eq_ok _ _ _ _ _).mp hrest
  simp only [Campd.validateSidecar, bind_eq_ok, exists_unit, Except.ok.injEq] at hbare
  obtain ⟨totals, hcommon, -, rfl⟩ := hbare
  have hcommon' : Campd.validateCommon sidecar.toCommonProcess first = .ok totals := hcommon
  have hsome : ¬(before ++ sidecar :: after).length + spec.main.length = 0 := by
    rw [List.length_append, List.length_cons]
    omega
  have hfold : (before ++ sidecar :: after).foldlM Campd.validateSidecar ⟨[], 0, 0⟩ =
      (Campd.validateSidecarFields sidecar >>= fun _ => .ok seen) := by
    rw [List.foldlM_append, bind_of_ok hbefore, List.foldlM_cons, Campd.validateSidecar,
      bind_of_ok hcommon']
    cases Campd.validateSidecarFields sidecar with
    | error error => rfl
    | ok u => exact hafter
  refine (bind_of_ok hversion _).trans ?_
  refine (bind_of_ok ((rejectIf_eq_ok _ _ ()).mpr hsome) _).trans ?_
  show (List.foldlM _ _ (before ++ sidecar :: after) >>= _) = _
  rw [hfold]
  cases Campd.validateSidecarFields sidecar with
  | error error => rfl
  | ok u =>
    refine (bind_of_ok hmain _).trans ?_
    refine (bind_of_ok hservice _).trans ?_
    exact hbudget

/-! ### The three checks -/

/-- One sidecar as the three programs receive it. -/
structure SameMounts (process : Sdk.Process) (sidecar : SidecarProcess)
    (binds : List Sandrun.Bind) : Prop where
  standard : sidecar.standardMounts = true
  disk : sidecar.diskMounts = process.diskMounts
  targets : sidecar.binds.map (·.target) = process.mounts.map (·.target)
  passed : binds.map (·.target) = process.mounts.map (·.target)

/-- The targets are clean absolute paths, and so are the other paths the mounts come with. -/
structure CleanMounts (process : Sdk.Process) (sidecar : SidecarProcess) : Prop where
  disk : ∀ target ∈ process.diskMounts, validAbsolutePath target = true
  targets : ∀ target ∈ process.mounts.map (·.target), validAbsolutePath target = true
  device : process.overlayDevice = [] ∨ validAbsolutePath process.overlayDevice = true
  sources : (∀ mount ∈ process.mounts, validAbsolutePath mount.source = true) ∧
    ∀ bind ∈ sidecar.binds, Campd.validPath bind.source false = true

theorem mountTargets_valid (process : Sdk.Process) (sidecar : SidecarProcess)
    (h : CleanMounts process sidecar) :
    ∀ target ∈ process.mountTargets, validAbsolutePath target = true := by
  intro target hm
  rcases List.mem_append.mp hm with hm | hm
  · rcases List.mem_append.mp hm with hm | hm
    · exact Sdk.standardSidecarMountTargets_valid target hm
    · exact h.disk target hm
  · exact h.targets target hm

/-- The string loops, the component loops of campd and those of sandrun refuse the same lists of
targets, with an overlap for their reason. -/
theorem mountTargets_agree (process : Sdk.Process) (sidecar : SidecarProcess)
    (binds : List Sandrun.Bind) (spec : Campd.Spec) (before after : List SidecarProcess)
    (hsame : SameMounts process sidecar binds) (hclean : CleanMounts process sidecar)
    (hrest : Campd.validate (declaring spec before after (bare sidecar)) = .ok ()) :
    Decides (validateSidecarMounts process) SdkOverlap (Overlapping process.mountTargets) ∧
    Decides (Campd.validate (declaring spec before after sidecar)) CampdOverlap
      (Overlapping process.mountTargets) ∧
    Decides (validateMountTargets true process.diskMounts binds []) SandrunOverlap
      (Overlapping process.mountTargets) := by
  have hvalid := mountTargets_valid process sidecar hclean
  have hunnested := unnested_iff process.mountTargets hvalid
  have hmounts : ∀ mount ∈ process.mounts,
      validAbsolutePath mount.source = true ∧ validAbsolutePath mount.target = true :=
    fun mount hm => ⟨hclean.sources.1 mount hm, hclean.targets _ (List.mem_map_of_mem hm)⟩
  refine ⟨?_, ?_, ?_⟩
  · apply decides_of_ok
    · rw [← hunnested, Sdk.validateSidecarMounts_eq_ok]
      constructor
      · intro h
        exact h.2.2.2
      · intro h
        exact ⟨hclean.device, hclean.disk, hmounts, h⟩
    · intro error herror
      exact validateSidecarMounts_error process error hclean.device hclean.disk hmounts herror
  · have hwell := (Campd.validate_eq_ok _).mp hrest
    have hbare := hwell.sidecars (bare sidecar) (by simp [declaring])
    have htargets : sidecar.mountTargets = process.mountTargets := by
      unfold SidecarProcess.mountTargets Sdk.Process.mountTargets
      rw [hsame.standard, hsame.disk, hsame.targets]
      rfl
    have hdisk : ∀ target ∈ sidecar.diskMounts, Campd.validPath target false = true := by
      rw [hsame.disk]
      exact fun target hm => validPath_of_path target (hclean.disk target hm)
    have hbinds : ∀ bind ∈ sidecar.binds, Campd.validPath bind.source false = true ∧
        Campd.validPath bind.target false = true := by
      intro bind hm
      have htarget := List.mem_map_of_mem (f := Campd.Bind.target) hm
      rw [hsame.targets] at htarget
      exact ⟨hclean.sources.2 bind hm, validPath_of_path _ (hclean.targets _ htarget)⟩
    rw [validate_declaring spec before after sidecar hrest]
    apply decides_of_ok
    · rw [Campd.validateSidecarFields_eq_ok sidecar hbare.common, ← hunnested, ← htargets]
      constructor
      · intro h
        exact h.targets
      · intro h
        exact ⟨hbare.common, hbare.rootfs, hbare.overlayDevice, hbare.user, hdisk, hbinds, h⟩
    · intro error herror
      exact validateSidecarFields_error sidecar error hbare.rootfs hbare.overlayDevice hbare.user
        hdisk hbinds herror
  · have htargets : Sandrun.mountTargets true process.diskMounts binds [] =
        process.mountTargets := by
      unfold Sandrun.mountTargets Sdk.Process.mountTargets
      rw [hsame.passed, List.append_nil]
      rfl
    have habsolute : ∀ t ∈ process.mountTargets, cleanAbsolute t = true := fun t hm =>
      Campd.cleanAbsolute_of_validPath t false (validPath_of_path t (hvalid t hm))
    unfold validateMountTargets
    rw [htargets]
    apply decides_of_ok
    · rw [← hunnested]
      exact Sandrun.validateTargetPaths_eq_ok [] _ (by simp) habsolute List.Pairwise.nil
    · intro error herror
      exact validateTargetPaths_error [] _ error herror

/-- The proxy of the rendered example, as campd receives it. -/
def webSidecar : SidecarProcess where
  name := lit "proxy"
  kind := .service
  command := [lit "/bin/proxy"]
  env := ∅
  workdir := []
  readinessProbe := none
  completionTimeoutMs := none
  rootfs := lit "/sidecars/proxy"
  overlayDevice := some (lit "/dev/vdb")
  standardMounts := true
  diskMounts := [lit "/var/cache"]
  binds := [⟨lit "/data", lit "/data", true⟩]
  user := none

theorem mountTargets_agree_web :
    Decides (validateSidecarMounts Agreement.webProxy) SdkOverlap
      (Overlapping Agreement.webProxy.mountTargets) ∧
    Decides (Campd.validate (declaring ⟨3, [], []⟩ [] [] webSidecar)) CampdOverlap
      (Overlapping Agreement.webProxy.mountTargets) ∧
    Decides (validateMountTargets true Agreement.webProxy.diskMounts
      [⟨lit "/data", lit "/data", true⟩] []) SandrunOverlap
      (Overlapping Agreement.webProxy.mountTargets) :=
  mountTargets_agree Agreement.webProxy webSidecar [⟨lit "/data", lit "/data", true⟩] ⟨3, [], []⟩
    [] [] ⟨rfl, rfl, rfl, rfl⟩
    ⟨by decide +kernel, by decide +kernel, Or.inl rfl, by decide +kernel, by decide +kernel⟩
    (by decide +kernel)

end Sandcamp.MountTargets
