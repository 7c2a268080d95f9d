import Sandcamp.Agreement

/-!
# What the payload determines

Two accepted declarations that agree outside their free byte strings render to one payload
exactly when these strings agree after every byte that is no part of a UTF-8 sequence is
replaced. U+FFFD takes its place, in the text as in what campd reads; where the text spells
that U+FFFD as an escape, it still tells stray bytes from a U+FFFD of the declaration.
-/

namespace Sandcamp.Payload
open Foundations Sandcamp.Sdk Sandcamp.Campd Sandcamp.Reading Sandcamp.Agreement

/-! ### Free byte strings -/

/-- The two processes agree outside their command, environment, workdir and mounts. -/
def Alike (p q : Sdk.Process) : Prop :=
  q = { p with
    command := q.command
    env := q.env
    workDir := q.workDir
    mounts := q.mounts
    diskMounts := q.diskMounts }

/-- The same processes in the same order, alike one by one. -/
def AlikeSpecs (first second : Sdk.Spec) : Prop :=
  List.Forall₂ Alike first.sidecars second.sidecars ∧ List.Forall₂ Alike first.main second.main

/-- The free byte strings of a process changed by `f`. -/
def mapStrings (f : Bytes → Bytes) (process : Sdk.Process) : Sdk.Process :=
  { process with
    command := process.command.map f
    env := process.env.map fun _ value => f value
    workDir := f process.workDir
    overlayDevice := f process.overlayDevice
    mounts := process.mounts.map fun mount => ⟨f mount.source, f mount.target, mount.readOnly⟩
    diskMounts := process.diskMounts.map f }

def mapSpec (f : Bytes → Bytes) (spec : Sdk.Spec) : Sdk.Spec :=
  ⟨spec.sidecars.map (mapStrings f), spec.main.map (mapStrings f)⟩

/-- The declaration with every byte outside UTF-8 sequences replaced: by U+FFFD where that is
written as it stands, by the byte 0xFF where it is written as an escape. -/
def marked (replacement : Json.Replacement) (spec : Sdk.Spec) : Sdk.Spec :=
  mapSpec replacement.kept spec

/-- The declaration with U+FFFD for every byte outside UTF-8 sequences. -/
def replaced (spec : Sdk.Spec) : Sdk.Spec := mapSpec Utf8.replaced spec

/-- The value of SANDCAMP_SPEC. -/
def payload (configuration : CustomConfiguration) : Bytes :=
  ((configuration.env.find? fun v => v.name = Sdk.specEnvironment).map (·.value)).getD []

theorem payload_of_env {configuration : CustomConfiguration} {text : Bytes}
    (h : configuration.env = [⟨Sdk.specEnvironment, text⟩]) : payload configuration = text := by
  unfold payload
  rw [h]
  simp

/-! ### Changing strings in the tree -/

section MapTree
variable (f : Bytes → Bytes) (hascii : ∀ s : Bytes, (∀ b ∈ s, b < 0x80) → f s = s)
variable (hnil : ∀ s, f s = [] ↔ s = [])

theorem mapMembers_append (first second : Members) :
    Json.mapMembers f (first ++ second) = Json.mapMembers f first ++ Json.mapMembers f second := by
  simp only [Json.mapMembers_eq, List.map_append]

theorem map_strings (items : List Bytes) : (strings items).map f = strings (items.map f) := by
  unfold strings
  by_cases h : items = []
  · rw [if_pos h, if_pos (by rw [h]; rfl), Json.map]
  · rw [if_neg h, if_neg (by simpa using h), Json.map, Json.mapItems_eq, List.map_map, List.map_map]
    congr 2

theorem map_int (n : Int64) : (int n).map f = int n := by rw [int, Json.map]

include hascii

theorem mapMembers_member (key : String) (value : Json Bytes) (hkey : (lit key).all (· < 0x80) = true) :
    Json.mapMembers f (member key value) = member key (value.map f) := by
  simp only [member, Json.mapMembers, hascii _ (ascii_of_all hkey)]

theorem mapMembers_omitEmpty (key : String) (empty empty' : Prop) [Decidable empty]
    [Decidable empty'] (value : Json Bytes) (hkey : (lit key).all (· < 0x80) = true)
    (hempty : empty ↔ empty') :
    Json.mapMembers f (omitEmpty key empty value) = omitEmpty key empty' (value.map f) := by
  unfold omitEmpty
  by_cases h : empty
  · rw [if_pos h, if_pos (hempty.mp h), Json.mapMembers]
  · rw [if_neg h, if_neg fun h' => h (hempty.mpr h'), mapMembers_member f hascii key value hkey]

theorem mapMembers_omitNil {α : Type} (key : String) (pointer : Option α) (json : α → Json Bytes)
    (hkey : (lit key).all (· < 0x80) = true) (hsame : ∀ a, pointer = some a → (json a).map f = json a) :
    Json.mapMembers f (omitNil key pointer json) = omitNil key pointer json := by
  cases pointer with
  | none => rw [omitNil, Json.mapMembers]
  | some a => rw [omitNil, mapMembers_member f hascii key _ hkey, hsame a rfl]

theorem map_probe (probe : RuntimeProbe) (hpath : f probe.path = probe.path) :
    probe.json.map f = probe.json := by
  simp only [RuntimeProbe.json, Json.map, mapMembers_append]
  rw [mapMembers_member f hascii "path" _ rfl, mapMembers_member f hascii "port" _ rfl,
    mapMembers_member f hascii "startup_timeout_ms" _ rfl,
    mapMembers_member f hascii "period_ms" _ rfl, mapMembers_member f hascii "timeout_ms" _ rfl,
    mapMembers_member f hascii "failure_threshold" _ rfl,
    mapMembers_member f hascii "success_threshold" _ rfl]
  simp only [map_int, Json.map, hpath]

theorem map_user (user : Sdk.ProcessUser) (hname : f user.name = user.name) :
    (toRuntimeUser user).json.map f = (toRuntimeUser user).json := by
  simp only [RuntimeUser.json, Json.map, mapMembers_append]
  rw [mapMembers_omitNil f hascii _ _ _ rfl,
    mapMembers_omitNil f hascii _ _ _ rfl fun n _ => by rw [Json.map],
    mapMembers_omitNil f hascii _ _ _ rfl fun n _ => by rw [Json.map]]
  intro name hn
  unfold toRuntimeUser at hn
  split at hn
  · obtain rfl := Option.some.inj hn
    rw [Json.map, hname]
  · cases hn

theorem map_bind (mount : BindMount) :
    (RuntimeBind.json ⟨mount.source, mount.target, mount.readOnly⟩).map f =
      RuntimeBind.json ⟨f mount.source, f mount.target, mount.readOnly⟩ := by
  simp only [RuntimeBind.json, Json.map, mapMembers_append]
  rw [mapMembers_member f hascii "source" _ rfl, mapMembers_member f hascii "target" _ rfl,
    mapMembers_omitEmpty f hascii _ _ _ _ rfl Iff.rfl]
  simp only [Json.map]

end MapTree

/-! ### What validation leaves in ASCII -/

theorem originFormFrom_ascii (value : Bytes) (h : originFormFrom value = true) :
    ∀ b ∈ value, b < 0x80 := by
  have hhex : ∀ b, isAsciiHexdigit b = true → b < 0x80 := by
    intro b hb
    simp only [isAsciiHexdigit, isAsciiDigit, Bool.or_eq_true, Bool.and_eq_true,
      decide_eq_true_eq, UInt8.le_iff_toNat_le] at hb
    rw [UInt8.lt_iff_toNat_lt]
    rcases hb with (hb | hb) | hb
    · exact Nat.lt_of_le_of_lt hb.2 (by decide)
    · exact Nat.lt_of_le_of_lt hb.2 (by decide)
    · exact Nat.lt_of_le_of_lt hb.2 (by decide)
  have hpunctuation : ∀ b ∈ originPunctuation, b < 0x80 := ascii_of_all rfl
  induction hlength : value.length using Nat.strong_induction_on generalizing value with
  | _ n ih =>
    cases value with
    | nil => simp
    | cons character rest =>
      by_cases hescape : character = 37
      · subst hescape
        cases rest with
        | nil => cases h
        | cons high rest =>
          cases rest with
          | nil => cases h
          | cons low rest =>
            rw [originFormFrom_escape] at h
            split at h
            · rename_i hdigits
              rw [Bool.and_eq_true] at hdigits
              simp only [List.length_cons] at hlength
              have hrest := ih rest.length (by omega) rest h rfl
              simp only [List.forall_mem_cons]
              exact ⟨by decide, hhex high hdigits.1, hhex low hdigits.2, hrest⟩
            · cases h
      · rw [originFormFrom_other _ _ hescape] at h
        split at h
        · rename_i hallowed
          rw [List.length_cons] at hlength
          have hrest := ih rest.length (by omega) rest h rfl
          rw [List.forall_mem_cons]
          refine ⟨?_, hrest⟩
          rw [Bool.or_eq_true] at hallowed
          rcases hallowed with halnum | hmark
          · exact isAsciiAlphanumeric_lt character halnum
          · exact hpunctuation character (by simpa using hmark)
        · cases h

theorem probePath_ascii (probe : Sdk.ReadinessProbe) (h : AcceptedProbe probe.withDefaults) :
    ∀ b ∈ probe.path, b < 0x80 := by
  have hpath : validHTTPOriginForm probe.path = true := h.path
  rw [validHTTPOriginForm_eq, validHttpOriginForm] at hpath
  split at hpath
  · exact originFormFrom_ascii probe.path hpath
  · cases hpath

theorem userName_ascii (user : Sdk.ProcessUser) (h : AcceptedUser user) :
    ∀ b ∈ user.name, b < 0x80 := by
  unfold AcceptedUser at h
  split at h
  · rename_i hempty
    rw [hempty]
    simp
  · obtain ⟨b, bs, hname, -⟩ := matchString_cons _ _ h.1
    have hvalid := validUserName_of_pattern _ h.1
    rw [hname] at hvalid ⊢
    simp only [validUserName, Bool.and_eq_true, List.all_eq_true] at hvalid
    exact fun c hc => nameByte_lt c (hvalid.2 c hc)

theorem environmentName_ascii (key : Bytes) (h : environmentPattern.matchString key = true) :
    ∀ b ∈ key, b < 0x80 := by
  obtain ⟨b, bs, rfl, hfirst, hrest, -⟩ := matchString_cons _ _ h
  have hletter : ∀ c, isAsciiAlphabetic c = true → c < 0x80 := fun c hc =>
    isAsciiAlphanumeric_lt c (by simp [isAsciiAlphanumeric, hc])
  intro c hc
  rcases List.mem_cons.mp hc with rfl | hc
  · have hbyte : (isAsciiAlphabetic c || c == 95) = true := hfirst
    rw [Bool.or_eq_true, beq_iff_eq] at hbyte
    rcases hbyte with halpha | rfl
    · exact hletter c halpha
    · decide
  · have hbyte : (isAsciiAlphanumeric c || c == 95) = true := hrest c hc
    rw [Bool.or_eq_true, beq_iff_eq] at hbyte
    rcases hbyte with halnum | rfl
    · exact isAsciiAlphanumeric_lt c halnum
    · decide

theorem processName_ascii (name : Bytes) (h : processNamePattern.matchString name = true) :
    ∀ b ∈ name, b < 0x80 :=
  validName_ascii name (validName_of_pattern name h)

/-! ### Changing strings in a declaration -/

section MapSpec
variable (f : Bytes → Bytes) (hascii : ∀ s : Bytes, (∀ b ∈ s, b < 0x80) → f s = s)
variable (hnil : ∀ s, f s = [] ↔ s = [])
include hascii

theorem map_userMember (process : Sdk.Process) (h : Accepted process) :
    Json.mapMembers f (omitNil "user" (process.user.map toRuntimeUser) RuntimeUser.json) =
      omitNil "user" (process.user.map toRuntimeUser) RuntimeUser.json := by
  refine mapMembers_omitNil f hascii _ _ _ rfl fun user hu => ?_
  obtain ⟨declared, hdeclared, rfl⟩ := Option.map_eq_some_iff.mp hu
  exact map_user f hascii declared
    (hascii _ (userName_ascii declared (h.user declared hdeclared)))

include hnil

omit hascii hnil in
theorem map_environment (entries : List (Bytes × Bytes))
    (hkeys : ∀ entry ∈ entries, f entry.1 = entry.1) :
    (Json.object (entries.map fun (key, value) => (key, Json.string value))).map f =
      .object ((entries.map fun entry => (entry.1, f entry.2)).map fun (key, value) =>
        (key, Json.string value)) := by
  rw [Json.map, Json.mapMembers_eq, List.map_map, List.map_map]
  congr 1
  apply List.map_congr_left
  intro entry hm
  simp only [Function.comp_apply, Json.map, hkeys entry hm]

theorem map_common (process : Sdk.Process) (h : Accepted process) :
    Json.mapMembers f (toRuntimeProcess process).members =
      (toRuntimeProcess (mapStrings f process)).members := by
  have hname : f (toRuntimeProcess process).name = (toRuntimeProcess (mapStrings f process)).name :=
    hascii _ (processName_ascii process.name h.name)
  have hkind : f (toRuntimeProcess process).kind =
      (toRuntimeProcess (mapStrings f process)).kind := by
    show f (discardKind (resolveProcessKind process.kind)) =
      discardKind (resolveProcessKind process.kind)
    rw [resolveProcessKind_readable process h.kind]
    unfold renderedKind
    split
    · exact hascii _ (ascii_of_all rfl)
    · exact hascii _ (ascii_of_all rfl)
  have henv : (toRuntimeProcess (mapStrings f process)).env.toList =
      (toRuntimeProcess process).env.toList.map fun entry => (entry.1, f entry.2) := by
    show (process.env.map fun _ value => f value).toList = _
    rw [Std.ExtTreeMap.toList_map]
    rfl
  have hobject := map_environment f (toRuntimeProcess process).env.toList fun entry hm =>
    hascii _ (environmentName_ascii entry.1 (h.env entry hm).1)
  rw [← henv] at hobject
  have hworkDir : (toRuntimeProcess process).workDir = [] ↔
      (toRuntimeProcess (mapStrings f process)).workDir = [] := (hnil process.workDir).symm
  have htimeout : (toRuntimeProcess process).completionTimeoutMS = 0 ↔
      (toRuntimeProcess (mapStrings f process)).completionTimeoutMS = 0 := Iff.rfl
  have hprobe : ∀ probe, (toRuntimeProcess process).readinessProbe = some probe →
      probe.json.map f = probe.json := by
    intro probe hp
    obtain ⟨declared, hdeclared, rfl⟩ := Option.map_eq_some_iff.mp hp
    refine map_probe f hascii _ (hascii _ ?_)
    show ∀ b ∈ (discardProbe (resolveProbe declared)).path, b < 0x80
    cases hresolved : resolveProbe declared with
    | error _ => simp [discardProbe]
    | ok resolved =>
      obtain ⟨haccepted, rfl⟩ := (resolveProbe_eq_ok declared resolved).mp hresolved
      exact probePath_ascii declared haccepted
  simp only [RuntimeProcess.members, mapMembers_append]
  rw [mapMembers_member f hascii "name" _ rfl, mapMembers_member f hascii "kind" _ rfl,
    mapMembers_member f hascii "command" _ rfl,
    mapMembers_omitEmpty f hascii _ _ ((toRuntimeProcess (mapStrings f process)).env.toList = []) _
      rfl (by rw [henv, List.map_eq_nil_iff]),
    mapMembers_omitEmpty f hascii _ _ _ _ rfl hworkDir,
    mapMembers_omitNil f hascii _ _ _ rfl hprobe,
    mapMembers_omitEmpty f hascii _ _ _ _ rfl htimeout,
    hobject, map_strings, map_int, Json.map, Json.map, Json.map, hname, hkind]
  rfl

theorem map_sidecar (process : Sdk.Process) (mountPath : Bytes) (h : Accepted process)
    (hmountPath : f mountPath = mountPath) :
    (toRuntimeSidecar process mountPath).json.map f =
      (toRuntimeSidecar (mapStrings f process) mountPath).json := by
  have hrootfs : f (toRuntimeSidecar process mountPath).rootFS =
      (toRuntimeSidecar (mapStrings f process) mountPath).rootFS := hmountPath
  have hdevice : f (toRuntimeSidecar process mountPath).overlayDevice =
      (toRuntimeSidecar (mapStrings f process) mountPath).overlayDevice := by
    show f (if process.overlayDevice = [] then defaultOverlayDevicePath
      else process.overlayDevice) = if f process.overlayDevice = [] then defaultOverlayDevicePath
      else f process.overlayDevice
    by_cases hempty : process.overlayDevice = []
    · rw [if_pos hempty, if_pos ((hnil _).mpr hempty)]
      exact hascii _ (ascii_of_all rfl)
    · rw [if_neg hempty, if_neg fun he => hempty ((hnil _).mp he)]
  have hbinds : (Json.array ((toRuntimeSidecar process mountPath).binds.map
        RuntimeBind.json)).map f =
      .array ((toRuntimeSidecar (mapStrings f process) mountPath).binds.map RuntimeBind.json) := by
    show (Json.array ((toRuntimeBinds process.mounts).map RuntimeBind.json)).map f =
      .array ((toRuntimeBinds (mapStrings f process).mounts).map RuntimeBind.json)
    simp only [Json.map, Json.mapItems_eq, toRuntimeBinds, mapStrings, List.map_map]
    congr 1
    refine List.map_congr_left fun mount _ => ?_
    exact map_bind f hascii mount
  have huser : Json.mapMembers f (omitNil "user" (toRuntimeSidecar process mountPath).user
        RuntimeUser.json) =
      omitNil "user" (toRuntimeSidecar (mapStrings f process) mountPath).user RuntimeUser.json :=
    map_userMember f hascii process h
  rw [sidecar_json, sidecar_json, Json.map, mapMembers_append]
  congr 2
  · exact map_common f hascii hnil process h
  · simp only [sidecarRest, mapMembers_append]
    rw [mapMembers_member f hascii _ _ rfl,
      mapMembers_omitEmpty f hascii _ _
        ((toRuntimeSidecar (mapStrings f process) mountPath).overlayDevice = []) _
        rfl (by rw [← hdevice, hnil]),
      mapMembers_member f hascii _ _ rfl,
      mapMembers_omitEmpty f hascii _ _
        ((toRuntimeSidecar (mapStrings f process) mountPath).diskMounts = []) _
        rfl (by simp [toRuntimeSidecar, mapStrings]),
      mapMembers_omitEmpty f hascii _ _
        ((toRuntimeSidecar (mapStrings f process) mountPath).binds = []) _
        rfl (by simp [toRuntimeSidecar, toRuntimeBinds, mapStrings]),
      hbinds, huser, map_strings, Json.map, Json.map, Json.map, hrootfs, hdevice]
    rfl

theorem map_main (process : Sdk.Process) (h : Accepted process) :
    (toRuntimeMain process).json.map f = (toRuntimeMain (mapStrings f process)).json := by
  rw [RuntimeMain.json, RuntimeMain.json, Json.map, mapMembers_append]
  congr 2
  · exact map_common f hascii hnil process h
  · exact map_userMember f hascii process h

/-- The mount paths the declaration uses. -/
def SameRootfs (spec : Sdk.Spec) (images : ResolvedImageSet) : Prop :=
  ∀ process ∈ spec.sidecars,
    images.mountPath process.name = lit "/mnt/sandcamp-sidecars/" ++ process.name

theorem map_spec (spec : Sdk.Spec) (images : ResolvedImageSet) (h : AcceptedSpec spec)
    (hrootfs : SameRootfs spec images) :
    (toRuntimeSpec spec images).json.map f = (toRuntimeSpec (mapSpec f spec) images).json := by
  have hsidecars : ((toRuntimeSpec spec images).sidecars.map RuntimeSidecar.json).map
      (Json.map f) = (toRuntimeSpec (mapSpec f spec) images).sidecars.map RuntimeSidecar.json := by
    simp only [toRuntimeSpec, mapSpec, List.map_map]
    refine List.map_congr_left fun process hm => ?_
    have haccepted := (h.sidecars process hm).common
    refine map_sidecar f hascii hnil process _ haccepted (hascii _ ?_)
    have hroot : ∀ b ∈ lit "/mnt/sandcamp-sidecars/", b < 0x80 := ascii_of_all rfl
    rw [hrootfs process hm]
    exact List.forall_mem_append.mpr ⟨hroot, processName_ascii process.name haccepted.name⟩
  have hmain : ((toRuntimeSpec spec images).main.map RuntimeMain.json).map (Json.map f) =
      (toRuntimeSpec (mapSpec f spec) images).main.map RuntimeMain.json := by
    simp only [toRuntimeSpec, mapSpec, List.map_map]
    refine List.map_congr_left fun process hm => ?_
    exact map_main f hascii hnil process (h.main process hm).common
  simp only [RuntimeSpec.json, Json.map, mapMembers_append]
  rw [mapMembers_member f hascii "version" _ rfl, mapMembers_member f hascii "sidecars" _ rfl,
    mapMembers_member f hascii "main" _ rfl, map_int, Json.map, Json.map, Json.mapItems_eq,
    Json.mapItems_eq, hsidecars, hmain]
  rfl

end MapSpec

/-! ### What the tree determines -/

theorem toRuntimeSpec_congr (spec : Sdk.Spec) (images images' : ResolvedImageSet)
    (h : SameRootfs spec images) (h' : SameRootfs spec images') :
    toRuntimeSpec spec images = toRuntimeSpec spec images' := by
  have hsidecars : (spec.sidecars.map fun process =>
        toRuntimeSidecar process (images.mountPath process.name)) =
      spec.sidecars.map fun process =>
        toRuntimeSidecar process (images'.mountPath process.name) := by
    refine List.map_congr_left fun process hm => ?_
    rw [h process hm, h' process hm]
  unfold toRuntimeSpec
  rw [hsidecars]

theorem sameRootfs_mapSpec (f : Bytes → Bytes) (spec : Sdk.Spec) (images : ResolvedImageSet)
    (h : SameRootfs spec images) : SameRootfs (mapSpec f spec) images := by
  intro process hm
  obtain ⟨declared, hdeclared, rfl⟩ := List.mem_map.mp hm
  exact h declared hdeclared

theorem readable_mapStrings (f : Bytes → Bytes) (process : Sdk.Process) (h : Readable process) :
    Readable (mapStrings f process) :=
  ⟨fun hnil => h.command (List.map_eq_nil_iff.mp hnil), h.kind⟩

theorem bindForm_injective : Function.Injective bindForm := by
  intro first second h
  obtain ⟨hsource, htarget, hreadOnly⟩ := Campd.Bind.mk.inj h
  cases first
  cases second
  simp_all

/-- Alike processes with one reading are equal. -/
theorem sidecar_determined (f : Bytes → Bytes) (p q : Sdk.Process) (d : SidecarProcess)
    (halike : Alike p q) (hp : IntendedSidecar (mapStrings f p) d)
    (hq : IntendedSidecar (mapStrings f q) d) : mapStrings f p = mapStrings f q := by
  have hcommand := hp.common.command.symm.trans hq.common.command
  have henv := hp.common.env.symm.trans hq.common.env
  have hworkDir := hp.common.workdir.symm.trans hq.common.workdir
  have hdisk := hp.diskMounts.symm.trans hq.diskMounts
  have hbinds := List.map_injective_iff.mpr bindForm_injective (hp.binds.symm.trans hq.binds)
  unfold Alike at halike
  rw [halike] at hcommand henv hworkDir hdisk hbinds ⊢
  simp only [mapStrings] at hcommand henv hworkDir hdisk hbinds ⊢
  rw [hcommand, henv, hworkDir, hdisk, hbinds]

theorem main_determined (f : Bytes → Bytes) (p q : Sdk.Process) (d : MainProcess)
    (hp' : AcceptedMain p) (hq' : AcceptedMain q) (halike : Alike p q)
    (hp : IntendedMain (mapStrings f p) d) (hq : IntendedMain (mapStrings f q) d) :
    mapStrings f p = mapStrings f q := by
  have hcommand := hp.common.command.symm.trans hq.common.command
  have henv := hp.common.env.symm.trans hq.common.env
  have hworkDir := hp.common.workdir.symm.trans hq.common.workdir
  have hmounts := hp'.mounts.trans hq'.mounts.symm
  have hdisk := hp'.diskMounts.trans hq'.diskMounts.symm
  unfold Alike at halike
  rw [halike] at hcommand henv hworkDir hmounts hdisk ⊢
  simp only [mapStrings] at hcommand henv hworkDir hmounts hdisk ⊢
  rw [hcommand, henv, hworkDir, hmounts, hdisk]

theorem processes_determined {α : Type} (f : Bytes → Bytes) (R : Sdk.Process → α → Prop)
    (good : Sdk.Process → Prop)
    (hone : ∀ p q d, good p → good q → Alike p q → R (mapStrings f p) d → R (mapStrings f q) d →
      mapStrings f p = mapStrings f q)
    {first second : List Sdk.Process} (halike : List.Forall₂ Alike first second)
    (hfirst : ∀ p ∈ first, good p) (hsecond : ∀ q ∈ second, good q) (decoded : List α)
    (hp : List.Forall₂ R (first.map (mapStrings f)) decoded)
    (hq : List.Forall₂ R (second.map (mapStrings f)) decoded) :
    first.map (mapStrings f) = second.map (mapStrings f) := by
  induction halike generalizing decoded with
  | nil => rfl
  | @cons p q ps qs hhead _ ih =>
    cases decoded with
    | nil => cases hp
    | cons d ds =>
      rw [List.map_cons, List.forall₂_cons] at hp hq
      have hd := hone p q d (hfirst p List.mem_cons_self) (hsecond q List.mem_cons_self) hhead
        hp.1 hq.1
      have hds := ih (fun a ha => hfirst a (List.mem_cons_of_mem _ ha))
        (fun a ha => hsecond a (List.mem_cons_of_mem _ ha)) ds hp.2 hq.2
      rw [List.map_cons, List.map_cons, hd, hds]

/-- What is read of the tree of a changed declaration determines it. -/
theorem mapSpec_determined (f : Bytes → Bytes) (first second : Sdk.Spec)
    (images images' : ResolvedImageSet) (hfirst : AcceptedSpec first)
    (hsecond : AcceptedSpec second) (halike : AlikeSpecs first second)
    (hrootfs : SameRootfs first images) (hrootfs' : SameRootfs second images')
    (h : decodeSpec (toRuntimeSpec (mapSpec f first) images).json =
      decodeSpec (toRuntimeSpec (mapSpec f second) images').json) :
    mapSpec f first = mapSpec f second := by
  have hreadable : ∀ spec, AcceptedSpec spec →
      ∀ process ∈ (mapSpec f spec).processes, Readable process := by
    intro spec haccepted process hm
    unfold Sdk.Spec.processes mapSpec at hm
    rw [← List.map_append] at hm
    obtain ⟨declared, hdeclared, rfl⟩ := List.mem_map.mp hm
    exact readable_mapStrings f declared
      (readable_of_accepted (haccepted.process declared hdeclared))
  obtain ⟨decoded, hdecoded, hintended⟩ := decodeSpec_json (mapSpec f first) images
    (hreadable first hfirst) (sameRootfs_mapSpec f first images hrootfs)
  obtain ⟨decoded', hdecoded', hintended'⟩ := decodeSpec_json (mapSpec f second) images'
    (hreadable second hsecond) (sameRootfs_mapSpec f second images' hrootfs')
  rw [h, hdecoded'] at hdecoded
  obtain rfl := Option.some.inj hdecoded
  have hsidecars := processes_determined f IntendedSidecar (fun _ => True)
    (fun p q d _ _ hpq hp hq => sidecar_determined f p q d hpq hp hq) halike.1
    (fun _ _ => trivial) (fun _ _ => trivial) _ hintended.sidecars hintended'.sidecars
  have hmain := processes_determined f IntendedMain AcceptedMain
    (fun p q d hp' hq' hpq hp hq => main_determined f p q d hp' hq' hpq hp hq) halike.2
    hfirst.main hsecond.main _ hintended.main hintended'.main
  unfold mapSpec
  rw [hsidecars, hmain]

/-! ### What the text determines -/

theorem within_any (spec : Sdk.Spec) (images : ResolvedImageSet) :
    Json.Within (fun _ => True) SmallNumber 5 (toRuntimeSpec spec images).json := by
  refine within_spec (fun _ => True) (fun _ _ => trivial) spec images ?_ fun _ _ => trivial
  intro process _
  exact ⟨trivial, fun _ _ => trivial, fun _ _ => ⟨trivial, trivial⟩, trivial, fun _ _ => trivial,
    trivial, fun _ _ => ⟨trivial, trivial⟩, fun _ _ => trivial, fun _ _ => trivial⟩

variable (replacement : Json.Replacement)

theorem within_pieces (spec : Sdk.Spec) (images : ResolvedImageSet) :
    Json.Within Json.Scrubbed SmallNumber 5
      ((toRuntimeSpec spec images).json.map replacement.pieces) := by
  rw [Json.within_map]
  exact Json.within_mono (fun s _ => replacement.scrubbed_pieces s) 5 _ (within_any spec images)

/-- Equal payloads are equal trees up to the bytes outside UTF-8 sequences. -/
theorem encodeSpec_eq_iff (first second : Sdk.Spec) (images images' : ResolvedImageSet) :
    encodeSpec replacement first images = encodeSpec replacement second images' ↔
      (toRuntimeSpec first images).json.map replacement.kept =
        (toRuntimeSpec second images').json.map replacement.kept := by
  have hfill : ∀ spec images, ((toRuntimeSpec spec images).json.map replacement.pieces).map
      Utf8.fill = (toRuntimeSpec spec images).json.map replacement.kept := fun spec images =>
    Json.map_map_within replacement.pieces Utf8.fill replacement.kept _ SmallNumber
      (fun s _ => replacement.fill_pieces s) 5 _ (within_any spec images)
  have hpieces : ∀ spec images, ((toRuntimeSpec spec images).json.map replacement.kept).map
      replacement.pieces = (toRuntimeSpec spec images).json.map replacement.pieces :=
    fun spec images => Json.map_map_within replacement.kept replacement.pieces replacement.pieces _
      SmallNumber (fun s _ => replacement.pieces_kept s) 5 _ (within_any spec images)
  constructor
  · intro h
    have htext := Base64.encode_injective h
    have htree := Json.write_injective SmallNumber 5 _ _ (within_pieces replacement first images)
      (within_pieces replacement second images') htext
    rw [← hfill, ← hfill, htree]
  · intro h
    have htree := congrArg (Json.map replacement.pieces) h
    rw [hpieces, hpieces] at htree
    unfold encodeSpec marshal
    rw [htree]

variable {replacement} {images images' : ImageSet} {first second : Sdk.Spec}
  {configuration configuration' : CustomConfiguration}

/-- Changed trees of accepted declarations are equal where the changed declarations are, and so is
what campd reads of them. -/
theorem tree_eq_iff (f : Bytes → Bytes) (hascii : ∀ s : Bytes, (∀ b ∈ s, b < 0x80) → f s = s)
    (hnil : ∀ s, f s = [] ↔ s = []) {resolved resolved' : ResolvedImageSet}
    (halike : AlikeSpecs first second) (hfirst : AcceptedSpec first)
    (hsecond : AcceptedSpec second) (hrootfs : SameRootfs first resolved)
    (hrootfs' : SameRootfs second resolved') :
    ((toRuntimeSpec first resolved).json.map f = (toRuntimeSpec second resolved').json.map f ↔
      mapSpec f first = mapSpec f second) ∧
    (decodeSpec ((toRuntimeSpec first resolved).json.map f) =
        decodeSpec ((toRuntimeSpec second resolved').json.map f) ↔
      mapSpec f first = mapSpec f second) := by
  rw [map_spec f hascii hnil first resolved hfirst hrootfs,
    map_spec f hascii hnil second resolved' hsecond hrootfs']
  have hdetermined := mapSpec_determined f first second resolved resolved' hfirst hsecond halike
    hrootfs hrootfs'
  have hsame : mapSpec f first = mapSpec f second → toRuntimeSpec (mapSpec f first) resolved =
      toRuntimeSpec (mapSpec f second) resolved' := by
    intro heq
    have hleft := sameRootfs_mapSpec f first resolved hrootfs
    have hright := sameRootfs_mapSpec f second resolved' hrootfs'
    rw [heq] at hleft ⊢
    exact toRuntimeSpec_congr _ resolved resolved' hleft hright
  exact ⟨⟨fun h => hdetermined (congrArg decodeSpec h), fun heq => by rw [hsame heq]⟩,
    ⟨hdetermined, fun heq => by rw [hsame heq]⟩⟩

/-- What campd reads of a payload, before it checks it. -/
def read (decoders : Decoders) (payload : Bytes) : Option Campd.Spec := do
  let bytes ← (decoders.decodeBase64 payload).toOption
  let json ← (decoders.parseJson bytes).toOption
  decodeSpec json

theorem read_encodeSpec {decoders : Decoders} (hreads : Reads decoders) (spec : Sdk.Spec)
    (images : ResolvedImageSet) : read decoders (encodeSpec replacement spec images) =
      decodeSpec ((toRuntimeSpec spec images).json.map Utf8.replaced) := by
  rw [read, encodeSpec, hreads.base64, Except.toOption, Option.bind_eq_bind, Option.bind_some,
    hreads.json replacement _ 5 (by decide) (within_any spec images), Except.toOption,
    Option.bind_eq_bind, Option.bind_some]

/-- Different declarations have different payloads exactly when they still differ with every byte
outside UTF-8 sequences replaced; campd reads different declarations out of them exactly when they
still differ with U+FFFD in the place of these bytes. -/
theorem payload_ne_iff (replacement : Json.Replacement) (images images' : ImageSet)
    (first second : Sdk.Spec) (configuration configuration' : CustomConfiguration)
    (halike : AlikeSpecs first second)
    (h : renderStart replacement images first = .ok configuration)
    (h' : renderStart replacement images' second = .ok configuration') :
    ((first ≠ second → payload configuration ≠ payload configuration') ↔
      (first ≠ second → marked replacement first ≠ marked replacement second)) ∧
    ∀ decoders, Reads decoders →
      ((first ≠ second →
          read decoders (payload configuration) ≠ read decoders (payload configuration')) ↔
        (first ≠ second → replaced first ≠ replaced second)) := by
  obtain ⟨resolved, hresolves, -, hfirst, hknown, -, henv⟩ :=
    renderStart_ok replacement images first configuration h
  obtain ⟨resolved', hresolves', -, hsecond, hknown', -, henv'⟩ :=
    renderStart_ok replacement images' second configuration' h'
  have hrootfs : SameRootfs first resolved := fun process hm =>
    mountPath_known hresolves process.name (hknown process hm)
  have hrootfs' : SameRootfs second resolved' := fun process hm =>
    mountPath_known hresolves' process.name (hknown' process hm)
  rw [payload_of_env henv, payload_of_env henv']
  have htext := (tree_eq_iff replacement.kept replacement.kept_ascii replacement.kept_eq_nil halike
    hfirst hsecond hrootfs hrootfs').1
  have hread := (tree_eq_iff Utf8.replaced
    (fun s hs => Utf8.replaced_valid (Utf8.valid_of_ascii s hs)) Utf8.replaced_eq_nil halike hfirst
    hsecond hrootfs hrootfs').2
  refine ⟨?_, fun decoders hreads => ?_⟩
  · rw [Ne, Ne, Ne, encodeSpec_eq_iff, htext]
    exact Iff.rfl
  · rw [Ne, Ne, Ne, read_encodeSpec hreads, read_encodeSpec hreads, hread]
    exact Iff.rfl

/-- A service with one argument. -/
def argumentSpec (argument : Bytes) : Sdk.Spec :=
  ⟨[], [{ webMain with command := [lit "/bin/web", argument] }]⟩

theorem argumentSpec_alike (first second : Bytes) :
    AlikeSpecs (argumentSpec first) (argumentSpec second) :=
  ⟨List.Forall₂.nil, List.Forall₂.cons rfl List.Forall₂.nil⟩

theorem argumentSpec_rendered (replacement : Json.Replacement) (argument : Bytes)
    (h : (renderStart replacement webImages (argumentSpec argument)).isOk = true) :
    ∃ configuration,
      renderStart replacement webImages (argumentSpec argument) = .ok configuration := by
  cases hrender : renderStart replacement webImages (argumentSpec argument) with
  | error e =>
    rw [hrender] at h
    cases h
  | ok configuration => exact ⟨configuration, rfl⟩

/-- The arguments 0xFF and U+FFFD: one payload where U+FFFD is written as it stands. -/
theorem payload_ne_iff_argument : ∃ configuration configuration',
    renderStart .literal webImages (argumentSpec [0xFF]) = .ok configuration ∧
    renderStart .literal webImages (argumentSpec [0xEF, 0xBF, 0xBD]) = .ok configuration' ∧
    ((argumentSpec [0xFF] ≠ argumentSpec [0xEF, 0xBF, 0xBD] →
        payload configuration ≠ payload configuration') ↔
      (argumentSpec [0xFF] ≠ argumentSpec [0xEF, 0xBF, 0xBD] →
        marked .literal (argumentSpec [0xFF]) ≠
          marked .literal (argumentSpec [0xEF, 0xBF, 0xBD]))) ∧
    ((argumentSpec [0xFF] ≠ argumentSpec [0xEF, 0xBF, 0xBD] →
        read compactDecoders (payload configuration) ≠
          read compactDecoders (payload configuration')) ↔
      (argumentSpec [0xFF] ≠ argumentSpec [0xEF, 0xBF, 0xBD] →
        replaced (argumentSpec [0xFF]) ≠ replaced (argumentSpec [0xEF, 0xBF, 0xBD]))) := by
  obtain ⟨configuration, h⟩ := argumentSpec_rendered .literal [0xFF] (by decide +kernel)
  obtain ⟨configuration', h'⟩ :=
    argumentSpec_rendered .literal [0xEF, 0xBF, 0xBD] (by decide +kernel)
  have hboth := payload_ne_iff .literal webImages webImages _ _ _ _
    (argumentSpec_alike [0xFF] [0xEF, 0xBF, 0xBD]) h h'
  exact ⟨configuration, configuration', h, h', hboth.1,
    hboth.2 compactDecoders compactDecoders_reads⟩

/-- The arguments 0xFE and 0xFF are one argument in the payload, however U+FFFD is written. -/
theorem payload_stray_bytes : AlikeSpecs (argumentSpec [0xFE]) (argumentSpec [0xFF]) ∧
    argumentSpec [0xFE] ≠ argumentSpec [0xFF] ∧
    (∃ configuration, renderStart .literal webImages (argumentSpec [0xFE]) = .ok configuration ∧
      renderStart .literal webImages (argumentSpec [0xFF]) = .ok configuration) ∧
    ∃ configuration, renderStart .escaped webImages (argumentSpec [0xFE]) = .ok configuration ∧
      renderStart .escaped webImages (argumentSpec [0xFF]) = .ok configuration := by
  refine ⟨argumentSpec_alike _ _, ?_, ?_, ?_⟩
  · intro h
    have hmain := congrArg (fun spec => spec.main.map (·.command)) h
    revert hmain
    decide
  · obtain ⟨configuration, h⟩ := argumentSpec_rendered .literal [0xFE] (by decide +kernel)
    refine ⟨configuration, h, ?_⟩
    rw [← h]
    decide +kernel
  · obtain ⟨configuration, h⟩ := argumentSpec_rendered .escaped [0xFE] (by decide +kernel)
    refine ⟨configuration, h, ?_⟩
    rw [← h]
    decide +kernel

end Sandcamp.Payload
