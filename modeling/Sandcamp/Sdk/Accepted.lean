import Sandcamp.Foundations.Nesting
import Sandcamp.Foundations.Wrapping
import Sandcamp.Sdk.Spec

/-!
# What `Validate` accepts, without its accumulators

The rules one accepted process satisfies, and what the four accumulators hold when the
loops are done. The startup budget stays the wrapping sum the loops compute.
-/

namespace Sandcamp.Sdk
open Foundations Foundations.UnixPath

/-! ### Paths -/

theorem validAbsolutePathAllowRoot_iff (v : Bytes) :
    validAbsolutePathAllowRoot v = true ↔
      hasRoot v = true ∧ nul ∉ v ∧ v = absolute (names v) := by
  by_cases hroot : hasRoot v = true
  · have hne : v ≠ [] := by
      rintro rfl
      cases hroot
    have hclean := clean_eq_self v hroot
    simp [validAbsolutePathAllowRoot, hroot, hne, hclean]
  · simp [validAbsolutePathAllowRoot, hroot]

theorem validAbsolutePath_iff (v : Bytes) :
    validAbsolutePath v = true ↔
      (hasRoot v = true ∧ nul ∉ v ∧ v = absolute (names v)) ∧ names v ≠ [] := by
  have hroot : v = absolute (names v) → (v ≠ [slash] ↔ names v ≠ []) := by
    intro hshape
    rw [not_iff_not]
    constructor
    · rintro rfl
      decide
    · intro hnames
      rw [hshape, hnames, absolute_nil]
  rw [validAbsolutePath, Bool.and_eq_true, validAbsolutePathAllowRoot_iff, decide_eq_true_eq]
  constructor
  · rintro ⟨hne, hvalid⟩
    exact ⟨hvalid, (hroot hvalid.2.2).mp hne⟩
  · rintro ⟨hvalid, hnames⟩
    exact ⟨(hroot hvalid.2.2).mpr hnames, hvalid⟩

/-- The string test on clean targets is the test on their names. -/
theorem mountTargetsOverlap_iff (a b : Bytes) (ha : validAbsolutePath a = true)
    (hb : validAbsolutePath b = true) :
    mountTargetsOverlap a b = true ↔ Nested (names a) (names b) := by
  rw [validAbsolutePath_iff] at ha hb
  obtain ⟨⟨-, -, hshapeA⟩, hneA⟩ := ha
  obtain ⟨⟨-, -, hshapeB⟩, hneB⟩ := hb
  have hproperA := names_proper a
  have hproperB := names_proper b
  generalize names a = ns at hshapeA hneA hproperA
  generalize names b = ms at hshapeB hneB hproperB
  subst hshapeA hshapeB
  have hequal : absolute ns = absolute ms ↔ ns = ms :=
    ⟨absolute_injective ns ms hproperA hproperB, fun h => h ▸ rfl⟩
  simp only [mountTargetsOverlap, Bool.or_eq_true, beq_iff_eq, List.isPrefixOf_iff_prefix,
    absolute_slash_prefix_iff ns ms hneA hproperA hproperB,
    absolute_slash_prefix_iff ms ns hneB hproperB hproperA, hequal, Nested]
  constructor
  · rintro ((rfl | hover) | hunder)
    · exact Or.inl (List.prefix_refl _)
    · exact Or.inr hover.1
    · exact Or.inl hunder.1
  · intro hnested
    by_cases he : ns = ms
    · exact Or.inl (Or.inl he)
    · rcases hnested with hunder | hover
      · exact Or.inr ⟨hunder, he⟩
      · exact Or.inl (Or.inr ⟨hover, fun h => he h.symm⟩)

/-! ### The rules for one process -/

/-- A duration of whole milliseconds, between two bounds in milliseconds. -/
def WholeMilliseconds (low high : ℕ) (duration : Int64) : Prop :=
  ∃ ms : ℕ, low ≤ ms ∧ ms ≤ high ∧ duration.toInt = 1000000 * ms

/-- The rules for a probe whose defaults are filled in. -/
structure AcceptedProbe (probe : ReadinessProbe) : Prop where
  path : validHTTPOriginForm probe.path = true
  port : 1 ≤ probe.port.toInt ∧ probe.port.toInt ≤ 65535 ∧ probe.port ≠ controlPort
  startup : WholeMilliseconds 1000 30000 probe.startupTimeout
  period : WholeMilliseconds 100 30000 probe.period
  timeout : WholeMilliseconds 100 30000 probe.timeout
  timeout_le : probe.timeout.toInt ≤ probe.startupTimeout.toInt
  failureThreshold : 1 ≤ probe.failureThreshold.toInt ∧ probe.failureThreshold.toInt < 2 ^ 32
  successThreshold : 1 ≤ probe.successThreshold.toInt ∧ probe.successThreshold.toInt < 2 ^ 32

def AcceptedUser (user : ProcessUser) : Prop :=
  if user.name = [] then user.uid ≠ 0xFFFFFFFF ∧ user.gid ≠ 0xFFFFFFFF
  else userNamePattern.matchString user.name = true ∧ user.uid = 0 ∧ user.gid = 0

/-- The lifecycle rules: an omitted kind is a service. -/
def AcceptedKind (process : Process) : Prop :=
  if process.kind = runToCompletion then
    process.probe = none ∧ WholeMilliseconds 100 30000 process.timeout
  else (process.kind = [] ∨ process.kind = service) ∧ process.timeout = 0 ∧
    ∀ probe, process.probe = some probe → AcceptedProbe probe.withDefaults

structure Accepted (process : Process) : Prop where
  name : processNamePattern.matchString process.name = true
  command : startsWithPath process.command = true
  arguments : ∀ argument ∈ process.command, nul ∉ argument
  workDir : process.workDir = [] ∨ validAbsolutePathAllowRoot process.workDir = true
  user : ∀ user, process.user = some user → AcceptedUser user
  env : ∀ entry ∈ process.env.toList, environmentPattern.matchString entry.1 = true ∧
    nul ∉ entry.2 ∧ entry.1 ≠ specEnvironment
  kind : AcceptedKind process

/-- The targets of a sidecar, in the order they are claimed. -/
def Process.mountTargets (process : Process) : List Bytes :=
  standardSidecarMountTargets ++ process.diskMounts ++ process.mounts.map (·.target)

structure AcceptedSidecar (process : Process) : Prop where
  common : Accepted process
  overlayDevice : process.overlayDevice = [] ∨ validAbsolutePath process.overlayDevice = true
  diskMounts : ∀ target ∈ process.diskMounts, validAbsolutePath target = true
  mounts : ∀ mount ∈ process.mounts,
    validAbsolutePath mount.source = true ∧ validAbsolutePath mount.target = true
  targets : Unnested (process.mountTargets.map names)

structure AcceptedMain (process : Process) : Prop where
  common : Accepted process
  overlayDevice : process.overlayDevice = []
  mounts : process.mounts = []
  diskMounts : process.diskMounts = []

/-- What a process adds to the startup budget. -/
def Process.startupBudget (process : Process) : Int64 :=
  if process.kind = runToCompletion then process.timeout
  else match process.probe with
    | none => 0
    | some probe => probe.withDefaults.startupTimeout

structure AcceptedSpec (spec : Spec) : Prop where
  sidecars : ∀ process ∈ spec.sidecars, AcceptedSidecar process
  main : ∀ process ∈ spec.main, AcceptedMain process
  names : (spec.processes.map (·.name)).Nodup
  service : ∃ process ∈ spec.processes, process.kind ≠ runToCompletion
  budget : ¬maxStartupBudget <
    spec.processes.foldl (fun budget process => budget + process.startupBudget) 0

theorem AcceptedSpec.process {spec : Spec} (h : AcceptedSpec spec) :
    ∀ process ∈ spec.processes, Accepted process := by
  intro process hm
  rcases List.mem_append.mp hm with hm | hm
  · exact (h.sidecars process hm).common
  · exact (h.main process hm).common

/-! ### Probes, users and kinds -/

theorem wholeMilliseconds_iff (low high : ℕ) (lower upper value : Int64)
    (hlower : lower.toInt = 1000000 * low) (hupper : upper.toInt = 1000000 * high) :
    ¬(value < lower ∨ upper < value ∨ value % millisecond ≠ 0) ↔
      WholeMilliseconds low high value := by
  have hunit : millisecond.toInt = 1000000 := by decide
  have hmod : value % millisecond = 0 ↔ value.toInt.tmod 1000000 = 0 := by
    rw [← Int64.toInt_inj, Int64.toInt_mod, hunit, Int64.toInt_zero]
  rw [not_or, not_or, not_not, hmod, Int64.lt_iff_toInt_lt, Int64.lt_iff_toInt_lt]
  constructor
  · rintro ⟨hlow, hhigh, hwhole⟩
    have hpos : 0 ≤ value.toInt := by omega
    rw [Int.tmod_eq_emod_of_nonneg hpos] at hwhole
    refine ⟨(value.toInt / 1000000).toNat, ?_, ?_, ?_⟩ <;> omega
  · rintro ⟨ms, hlow, hhigh, hvalue⟩
    have hpos : 0 ≤ value.toInt := by omega
    rw [Int.tmod_eq_emod_of_nonneg hpos]
    refine ⟨?_, ?_, ?_⟩ <;> omega

theorem toUInt64_toNat (t : Int64) (h : 0 ≤ t.toInt) : (t.toUInt64.toNat : ℤ) = t.toInt := by
  have hbits : t.toUInt64.toNat = t.toBitVec.toNat := rfl
  have hvalue : t.toInt = t.toBitVec.toInt := rfl
  have hlt := t.toBitVec.isLt
  rw [hvalue, BitVec.toInt_eq_toNat_cond] at h
  rw [hbits, hvalue, BitVec.toInt_eq_toNat_cond]
  split at h <;> rename_i hsmall
  · rw [if_pos hsmall]
  · omega

theorem threshold_iff (t : Int64) :
    ¬t < 1 ∧ ¬4294967295 < t.toUInt64 ↔ 1 ≤ t.toInt ∧ t.toInt < 2 ^ 32 := by
  have hone : (1 : Int64).toInt = 1 := by decide
  have hbound : (4294967295 : UInt64).toNat = 4294967295 := rfl
  rw [Int64.lt_iff_toInt_lt, UInt64.lt_iff_toNat_lt, hone, hbound]
  constructor
  · rintro ⟨hlow, hhigh⟩
    have hnat := toUInt64_toNat t (by omega)
    omega
  · rintro ⟨hlow, hhigh⟩
    have hnat := toUInt64_toNat t (by omega)
    omega

theorem port_iff (port : Int64) :
    ¬(port < 1 ∨ 65535 < port) ↔ 1 ≤ port.toInt ∧ port.toInt ≤ 65535 := by
  have hone : (1 : Int64).toInt = 1 := by decide
  have hmax : (65535 : Int64).toInt = 65535 := by decide
  rw [Int64.lt_iff_toInt_lt, Int64.lt_iff_toInt_lt, hone, hmax]
  omega

theorem validateProbe_eq_ok (probe : ReadinessProbe) :
    validateProbe probe = .ok () ↔ AcceptedProbe probe := by
  have hstartup := wholeMilliseconds_iff 1000 30000 (1000 * millisecond) agsReadyTimeout
    probe.startupTimeout (by decide) (by decide)
  have hperiod := wholeMilliseconds_iff 100 30000 (100 * millisecond) agsReadyTimeout
    probe.period (by decide) (by decide)
  have htimeout := wholeMilliseconds_iff 100 30000 (100 * millisecond) agsReadyTimeout
    probe.timeout (by decide) (by decide)
  have hle : ¬probe.startupTimeout < probe.timeout ↔
      probe.timeout.toInt ≤ probe.startupTimeout.toInt := by
    rw [Int64.lt_iff_toInt_lt, Int.not_lt]
  have hfailure := threshold_iff probe.failureThreshold
  have hsuccess := threshold_iff probe.successThreshold
  simp only [validateProbe, validateProbeDuration, bind_eq_ok, exists_unit, rejectIf_eq_ok,
    port_iff, hstartup, hperiod, htimeout, hle, Bool.not_eq_false]
  constructor
  · rintro ⟨hpath, hport, hcontrol, hs, hp, ht, hl, hf, hg, hlimit⟩
    rw [not_or] at hlimit
    exact ⟨hpath, ⟨hport.1, hport.2, hcontrol⟩, hs, hp, ht, hl, hfailure.mp ⟨hf, hlimit.1⟩,
      hsuccess.mp ⟨hg, hlimit.2⟩⟩
  · intro h
    have hf := hfailure.mpr h.failureThreshold
    have hg := hsuccess.mpr h.successThreshold
    refine ⟨h.path, ⟨h.port.1, h.port.2.1⟩, h.port.2.2, h.startup, h.period, h.timeout,
      h.timeout_le, hf.1, hg.1, ?_⟩
    rw [not_or]
    exact ⟨hf.2, hg.2⟩

theorem resolveProbe_eq_ok (probe resolved : ReadinessProbe) :
    resolveProbe probe = .ok resolved ↔
      AcceptedProbe probe.withDefaults ∧ probe.withDefaults = resolved := by
  simp only [resolveProbe, bind_eq_ok, exists_unit, validateProbe_eq_ok, Except.ok.injEq]

theorem validateUser_ok (name : Bytes) (user : ProcessUser) (h : validateUser name user = .ok ()) :
    AcceptedUser user := by
  unfold validateUser at h
  unfold AcceptedUser
  split at h
  · rename_i hne
    simp only [bind_eq_ok, exists_unit, rejectIf_eq_ok, not_or, not_not, Bool.not_eq_false] at h
    rw [if_neg hne]
    exact h
  · rename_i hempty
    simp only [rejectIf_eq_ok, not_or] at h
    rw [if_pos (not_not.mp hempty)]
    exact h

theorem validateCompletionTimeout_ok (timeout : Int64)
    (h : validateCompletionTimeout timeout = .ok ()) : WholeMilliseconds 100 30000 timeout := by
  simp only [validateCompletionTimeout, rejectIf_eq_ok] at h
  exact (wholeMilliseconds_iff 100 30000 _ _ timeout (by decide) (by decide)).mp h

theorem resolveProcessKind_ok (kind resolved : Bytes) (h : resolveProcessKind kind = .ok resolved) :
    (kind = runToCompletion ∧ resolved = runToCompletion) ∨
      ((kind = [] ∨ kind = service) ∧ kind ≠ runToCompletion ∧ resolved = service) := by
  have hservice : service ≠ runToCompletion := by decide
  have hjob : runToCompletion ≠ [] := by decide
  unfold resolveProcessKind at h
  split at h
  · rename_i hempty
    obtain rfl := Except.ok.inj h
    exact Or.inr ⟨Or.inl hempty, fun he => hjob (he ▸ hempty), rfl⟩
  · split at h
    · cases h
    · rename_i hknown
      obtain rfl := Except.ok.inj h
      by_cases hk : kind = service
      · subst hk
        exact Or.inr ⟨Or.inr rfl, hservice, rfl⟩
      · have hj : kind = runToCompletion := by
          by_contra hj
          exact hknown ⟨hk, hj⟩
        exact Or.inl ⟨hj, hj⟩

/-! ### Accumulators -/

/-- What one accepted process does to the names, the budget and the count. -/
structure Advances (seen : Seen) (process : Process) (seen' : Seen) : Prop where
  fresh : process.name ∉ seen.names
  names : seen'.names = process.name :: seen.names
  budget : seen'.startupBudget = seen.startupBudget + process.startupBudget
  count : seen'.serviceCount =
    seen.serviceCount + if process.kind = runToCompletion then 0 else 1

theorem claimPorts_ok (name : Bytes) (ports : List Int64) (seen seen' : Seen)
    (h : ports.foldlM (claimPort name) seen = .ok seen') :
    seen' = { seen with ports := seen'.ports } := by
  induction ports generalizing seen with
  | nil =>
    obtain rfl := Except.ok.inj h
    rfl
  | cons port ports ih =>
    rw [foldlM_cons_eq_ok] at h
    obtain ⟨next, hnext, hrest⟩ := h
    simp only [claimPort, bind_eq_ok, exists_unit, rejectIf_eq_ok, Except.ok.injEq] at hnext
    obtain ⟨-, -, -, rfl⟩ := hnext
    have hseen := ih _ hrest
    exact hseen

theorem validateService_ok (process : Process) (seen seen' : Seen)
    (hkind : process.kind = [] ∨ process.kind = service) (hjob : process.kind ≠ runToCompletion)
    (h : validateService process seen = .ok seen') :
    AcceptedKind process ∧ seen' = { seen with
      serviceCount := seen.serviceCount + 1
      startupBudget := seen.startupBudget + process.startupBudget } := by
  unfold AcceptedKind Process.startupBudget
  rw [if_neg hjob, if_neg hjob]
  simp only [validateService, bind_eq_ok, exists_unit, rejectIf_eq_ok, not_not] at h
  obtain ⟨htimeout, h⟩ := h
  cases hprobe : process.probe with
  | none =>
    rw [hprobe] at h
    obtain rfl := Except.ok.inj h
    have hzero : seen.startupBudget + 0 = seen.startupBudget := by simp
    exact ⟨⟨hkind, htimeout, fun probe hp => by cases hp⟩, by simp only [hzero]⟩
  | some probe =>
    rw [hprobe] at h
    simp only [bind_eq_ok, mapError_eq_ok, Except.ok.injEq] at h
    obtain ⟨resolved, hresolved, rfl⟩ := h
    obtain ⟨haccepted, rfl⟩ := (resolveProbe_eq_ok probe resolved).mp hresolved
    refine ⟨⟨hkind, htimeout, ?_⟩, rfl⟩
    intro other hother
    obtain rfl := Option.some.inj hother
    exact haccepted

theorem validateJob_ok (process : Process) (seen seen' : Seen)
    (hjob : process.kind = runToCompletion) (h : validateJob process seen = .ok seen') :
    AcceptedKind process ∧ seen' = { seen with
      startupBudget := seen.startupBudget + process.startupBudget } := by
  unfold AcceptedKind Process.startupBudget
  rw [if_pos hjob, if_pos hjob]
  simp only [validateJob, bind_eq_ok, exists_unit, rejectIf_eq_ok, mapError_eq_ok,
    Except.ok.injEq, Bool.not_eq_true, Option.isSome_eq_false_iff, Option.isNone_iff_eq_none] at h
  obtain ⟨hprobe, -, htimeout, rfl⟩ := h
  exact ⟨⟨hprobe, validateCompletionTimeout_ok _ htimeout⟩, rfl⟩

theorem validateKind_ok (process : Process) (seen seen' : Seen)
    (h : validateKind process seen = .ok seen') :
    AcceptedKind process ∧ seen' = { seen with
      startupBudget := seen.startupBudget + process.startupBudget
      serviceCount := seen.serviceCount + if process.kind = runToCompletion then 0 else 1 } := by
  simp only [validateKind, bind_eq_ok, mapError_eq_ok] at h
  obtain ⟨resolved, hresolved, h⟩ := h
  have hdifferent : runToCompletion ≠ service := by decide
  rcases resolveProcessKind_ok _ _ hresolved with ⟨hjob, rfl⟩ | ⟨hkind, hjob, rfl⟩
  · rw [if_neg hdifferent, if_pos rfl] at h
    obtain ⟨haccepted, hseen⟩ := validateJob_ok process seen seen' hjob h
    rw [if_pos hjob]
    exact ⟨haccepted, hseen⟩
  · rw [if_pos rfl] at h
    obtain ⟨haccepted, hseen⟩ := validateService_ok process seen seen' hkind hjob h
    rw [if_neg hjob]
    exact ⟨haccepted, hseen⟩

theorem validateProcess_ok (process : Process) (seen seen' : Seen)
    (h : validateProcess process seen = .ok seen') :
    Accepted process ∧ Advances seen process seen' := by
  simp only [validateProcess, validateEnv, bind_eq_ok, exists_unit, rejectIf_eq_ok, forEach_eq_ok,
    Option.mem_toList, Bool.not_eq_false, not_or] at h
  obtain ⟨hname, hfresh, hcommand, hnul, hworkDir, huser, henv, next, hports, hkind⟩ := h
  have hnext := claimPorts_ok process.name process.expose _ next hports
  obtain ⟨hlifecycle, rfl⟩ := validateKind_ok process next seen' hkind
  rw [hnext]
  refine ⟨⟨hname, hcommand, ?_, ?_, ?_, ?_, hlifecycle⟩, ⟨hfresh, rfl, rfl, rfl⟩⟩
  · exact fun argument hm hn => hnul ⟨argument, hm, hn⟩
  · by_cases hempty : process.workDir = []
    · exact Or.inl hempty
    · exact Or.inr (by simpa [hempty] using hworkDir)
  · exact fun user hu => validateUser_ok process.name user (huser user hu)
  · intro entry hm
    obtain ⟨⟨hkey, hvalue⟩, hspec⟩ := henv entry hm
    exact ⟨hkey, hvalue, hspec⟩

/-! ### Mounts -/

theorem standardSidecarMountTargets_valid :
    ∀ target ∈ standardSidecarMountTargets, validAbsolutePath target = true := by decide

theorem standardSidecarMountTargets_unnested :
    Unnested (standardSidecarMountTargets.map names) := by
  have hnames : standardSidecarMountTargets.map names =
      [[lit "proc"], [lit "dev"], [lit "sys"], [lit "tmp"], [lit "run"],
        [lit "etc", lit "resolv.conf"], [lit "etc", lit "hosts"]] := by decide
  rw [hnames]
  simp only [Unnested, Nested, List.pairwise_cons]
  decide

theorem claimTarget_eq_ok (overlap : Bytes → Bytes → SpecError) (targets : List Bytes)
    (target : Bytes) (targets' : List Bytes)
    (htargets : ∀ t ∈ targets, validAbsolutePath t = true)
    (htarget : validAbsolutePath target = true) :
    claimTarget overlap targets target = .ok targets' ↔
      (∀ previous ∈ targets, ¬Nested (names previous) (names target)) ∧
        targets' = targets ++ [target] := by
  simp only [claimTarget, bind_eq_ok, exists_unit, forEach_eq_ok, rejectIf_eq_ok, Except.ok.injEq]
  refine and_congr ?_ eq_comm
  refine forall₂_congr fun previous hm => ?_
  rw [mountTargetsOverlap_iff previous target (htargets previous hm) htarget]

theorem claimDiskMount_eq_ok (name : Bytes) (targets : List Bytes) (mount : Bytes × ℕ)
    (targets' : List Bytes) (htargets : ∀ t ∈ targets, validAbsolutePath t = true) :
    claimDiskMount name targets mount = .ok targets' ↔
      validAbsolutePath mount.1 = true ∧
        (∀ previous ∈ targets, ¬Nested (names previous) (names mount.1)) ∧
        targets' = targets ++ [mount.1] := by
  simp only [claimDiskMount, bind_eq_ok, exists_unit, rejectIf_eq_ok, Bool.not_eq_false]
  exact and_congr_right fun hvalid => claimTarget_eq_ok _ targets mount.1 targets' htargets hvalid

theorem claimMount_eq_ok (name : Bytes) (targets : List Bytes) (mount : BindMount × ℕ)
    (targets' : List Bytes) (htargets : ∀ t ∈ targets, validAbsolutePath t = true) :
    claimMount name targets mount = .ok targets' ↔
      (validAbsolutePath mount.1.source = true ∧ validAbsolutePath mount.1.target = true) ∧
        (∀ previous ∈ targets, ¬Nested (names previous) (names mount.1.target)) ∧
        targets' = targets ++ [mount.1.target] := by
  simp only [claimMount, bind_eq_ok, exists_unit, rejectIf_eq_ok, Bool.not_eq_false, and_assoc]
  refine and_congr_right fun _ => and_congr_right fun hvalid => ?_
  exact claimTarget_eq_ok _ targets mount.1.target targets' htargets hvalid

theorem forall_mem_zipIdx {α : Type} (p : α → Prop) (xs : List α) :
    (∀ entry ∈ xs.zipIdx, p entry.1) ↔ ∀ x ∈ xs, p x := by
  have hfirst : xs.zipIdx.map Prod.fst = xs := List.zipIdx_map_fst 0 xs
  have hmap := @List.forall_mem_map _ _ Prod.fst xs.zipIdx p
  rw [hfirst] at hmap
  exact hmap.symm

theorem claimDiskMounts_eq_ok (process : Process) (targets : List Bytes) :
    process.diskMounts.zipIdx.foldlM (claimDiskMount process.name) standardSidecarMountTargets =
        .ok targets ↔
      (∀ target ∈ process.diskMounts, validAbsolutePath target = true) ∧
        targets = standardSidecarMountTargets ++ process.diskMounts ∧
        Unnested (targets.map names) := by
  have hclaims := claims_eq_ok (claimDiskMount process.name) (fun mount => mount.1) names
    (fun mount => validAbsolutePath mount.1 = true) (validAbsolutePath · = true)
    (claimDiskMount_eq_ok process.name) (fun _ hvalid => hvalid) process.diskMounts.zipIdx _
    targets standardSidecarMountTargets_valid standardSidecarMountTargets_unnested
  rw [hclaims, forall_mem_zipIdx (validAbsolutePath · = true), List.zipIdx_map_fst]

theorem claimMounts_eq_ok (process : Process) (claimed targets : List Bytes)
    (hclaimed : ∀ t ∈ claimed, validAbsolutePath t = true)
    (hunnested : Unnested (claimed.map names)) :
    process.mounts.zipIdx.foldlM (claimMount process.name) claimed = .ok targets ↔
      (∀ mount ∈ process.mounts,
        validAbsolutePath mount.source = true ∧ validAbsolutePath mount.target = true) ∧
        targets = claimed ++ process.mounts.map (·.target) ∧ Unnested (targets.map names) := by
  have hclaims := claims_eq_ok (claimMount process.name) (fun mount => mount.1.target) names
    (fun mount => validAbsolutePath mount.1.source = true ∧
      validAbsolutePath mount.1.target = true)
    (validAbsolutePath · = true) (claimMount_eq_ok process.name) (fun _ hvalid => hvalid.2)
    process.mounts.zipIdx claimed targets hclaimed hunnested
  have hvalid := forall_mem_zipIdx (fun mount : BindMount =>
    validAbsolutePath mount.source = true ∧ validAbsolutePath mount.target = true) process.mounts
  have htargets : process.mounts.zipIdx.map (fun mount => mount.1.target) =
      process.mounts.map (·.target) := by
    have hfirst : (fun mount : BindMount × ℕ => mount.1.target) =
        (fun mount : BindMount => mount.target) ∘ Prod.fst := rfl
    rw [hfirst, ← List.map_map, List.zipIdx_map_fst]
  rw [hclaims, hvalid, htargets]

/-- The checks on the mounts of a sidecar, without the growing list of targets. -/
theorem validateSidecarMounts_eq_ok (process : Process) :
    validateSidecarMounts process = .ok () ↔
      (process.overlayDevice = [] ∨ validAbsolutePath process.overlayDevice = true) ∧
        (∀ target ∈ process.diskMounts, validAbsolutePath target = true) ∧
        (∀ mount ∈ process.mounts,
          validAbsolutePath mount.source = true ∧ validAbsolutePath mount.target = true) ∧
        Unnested (process.mountTargets.map names) := by
  have hdevice : ¬(process.overlayDevice ≠ [] ∧ validAbsolutePath process.overlayDevice = false) ↔
      process.overlayDevice = [] ∨ validAbsolutePath process.overlayDevice = true := by
    rw [not_and_or, not_not, Bool.not_eq_false]
  have hmiddle : (∀ target ∈ process.diskMounts, validAbsolutePath target = true) →
      ∀ t ∈ standardSidecarMountTargets ++ process.diskMounts, validAbsolutePath t = true := by
    intro hdisk t ht
    rcases List.mem_append.mp ht with ht | ht
    · exact standardSidecarMountTargets_valid t ht
    · exact hdisk t ht
  simp only [validateSidecarMounts, bind_eq_ok, exists_unit, rejectIf_eq_ok, hdevice,
    claimDiskMounts_eq_ok]
  refine and_congr_right fun _ => ?_
  constructor
  · rintro ⟨middle, ⟨hdisk, rfl, hfirst⟩, last, hlast, -⟩
    obtain ⟨hmounts, rfl, hall⟩ := (claimMounts_eq_ok process _ last (hmiddle hdisk) hfirst).mp hlast
    exact ⟨hdisk, hmounts, hall⟩
  · rintro ⟨hdisk, hmounts, hall⟩
    have hfirst : Unnested ((standardSidecarMountTargets ++ process.diskMounts).map names) :=
      hall.sublist (List.Sublist.map names (List.sublist_append_left _ _))
    exact ⟨_, ⟨hdisk, rfl, hfirst⟩, _,
      (claimMounts_eq_ok process _ _ (hmiddle hdisk) hfirst).mpr ⟨hmounts, rfl, hall⟩, trivial⟩

/-! ### The two process loops -/

/-- What the accumulators hold after a list of processes. -/
structure AdvancesAll (seen : Seen) (processes : List Process) (seen' : Seen) : Prop where
  names : seen'.names = (processes.map (·.name)).reverse ++ seen.names
  nodup : seen.names.Nodup → seen'.names.Nodup
  budget : seen'.startupBudget =
    processes.foldl (fun budget process => budget + process.startupBudget) seen.startupBudget
  count : seen'.serviceCount =
    seen.serviceCount + processes.countP (·.kind ≠ runToCompletion)

theorem advancesAll_nil (seen : Seen) : AdvancesAll seen [] seen := ⟨rfl, id, rfl, rfl⟩

theorem advancesAll_cons {seen next seen' : Seen} {process : Process} {rest : List Process}
    (hstep : Advances seen process next) (hrest : AdvancesAll next rest seen') :
    AdvancesAll seen (process :: rest) seen' := by
  refine ⟨?_, ?_, ?_, ?_⟩
  · rw [hrest.names, hstep.names]
    simp
  · intro hnodup
    refine hrest.nodup ?_
    rw [hstep.names]
    exact List.nodup_cons.mpr ⟨hstep.fresh, hnodup⟩
  · rw [hrest.budget, hstep.budget, List.foldl_cons]
  · rw [hrest.count, hstep.count, List.countP_cons]
    by_cases hjob : process.kind = runToCompletion
    · simp [hjob]
    · simp [hjob]
      omega

theorem validateLoop_ok (step : Seen → Process × ℕ → Except SpecError Seen)
    (valid : Process → Prop)
    (hstep : ∀ seen process index seen', step seen (process, index) = .ok seen' →
      valid process ∧ Advances seen process seen')
    (processes : List Process) (index : ℕ) (seen seen' : Seen)
    (h : (processes.zipIdx index).foldlM step seen = .ok seen') :
    (∀ process ∈ processes, valid process) ∧ AdvancesAll seen processes seen' := by
  induction processes generalizing index seen with
  | nil =>
    obtain rfl := Except.ok.inj h
    exact ⟨by simp, advancesAll_nil seen⟩
  | cons process rest ih =>
    rw [List.zipIdx_cons, foldlM_cons_eq_ok] at h
    obtain ⟨next, hnext, hrest⟩ := h
    obtain ⟨hvalid, hadvance⟩ := hstep seen process index next hnext
    obtain ⟨hvalidRest, hadvanceRest⟩ := ih (index + 1) next hrest
    exact ⟨List.forall_mem_cons.mpr ⟨hvalid, hvalidRest⟩, advancesAll_cons hadvance hadvanceRest⟩

theorem validateSidecar_ok (seen : Seen) (process : Process) (index : ℕ) (seen' : Seen)
    (h : validateSidecar seen (process, index) = .ok seen') :
    AcceptedSidecar process ∧ Advances seen process seen' := by
  simp only [validateSidecar, bind_eq_ok, exists_unit, rejectIf_eq_ok, Except.ok.injEq] at h
  obtain ⟨-, next, hprocess, hmounts, rfl⟩ := h
  obtain ⟨hcommon, hadvance⟩ := validateProcess_ok process seen next hprocess
  obtain ⟨hdevice, hdisk, hbinds, hfree⟩ := (validateSidecarMounts_eq_ok process).mp hmounts
  exact ⟨⟨hcommon, hdevice, hdisk, hbinds, hfree⟩, hadvance⟩

theorem validateMain_ok (seen : Seen) (process : Process) (index : ℕ) (seen' : Seen)
    (h : validateMain seen (process, index) = .ok seen') :
    AcceptedMain process ∧ Advances seen process seen' := by
  simp only [validateMain, bind_eq_ok, exists_unit, rejectIf_eq_ok, Except.ok.injEq, not_not] at h
  obtain ⟨-, next, hprocess, hdevice, hmounts, hdisk, rfl⟩ := h
  obtain ⟨hcommon, hadvance⟩ := validateProcess_ok process seen next hprocess
  exact ⟨⟨hcommon, hdevice, hmounts, hdisk⟩, hadvance⟩

theorem validate_ok (spec : Spec) (h : spec.validate = .ok ()) : AcceptedSpec spec := by
  simp only [Spec.validate, bind_eq_ok, exists_unit, rejectIf_eq_ok] at h
  obtain ⟨-, middle, hsidecars, last, hmain, hservice, -, hbudget⟩ := h
  obtain ⟨hsidecarsValid, hfirst⟩ := validateLoop_ok validateSidecar AcceptedSidecar
    validateSidecar_ok spec.sidecars 0 _ middle hsidecars
  obtain ⟨hmainValid, hsecond⟩ := validateLoop_ok validateMain AcceptedMain
    validateMain_ok spec.main 0 middle last hmain
  have hnames : last.names = (spec.processes.map (·.name)).reverse := by
    rw [hsecond.names, hfirst.names]
    simp [Spec.processes]
  have hnodup : last.names.Nodup := hsecond.nodup (hfirst.nodup List.nodup_nil)
  have hcount : last.serviceCount = spec.processes.countP (·.kind ≠ runToCompletion) := by
    rw [hsecond.count, hfirst.count, Spec.processes, List.countP_append]
    simp
  refine ⟨hsidecarsValid, hmainValid, ?_, ?_, ?_⟩
  · rw [hnames] at hnodup
    exact (List.reverse_perm _).nodup_iff.mp hnodup
  · rw [hcount] at hservice
    obtain ⟨process, hm, hkind⟩ := List.countP_pos_iff.mp (Nat.pos_of_ne_zero hservice)
    exact ⟨process, hm, by simpa using hkind⟩
  · rw [hsecond.budget, hfirst.budget, ← List.foldl_append] at hbudget
    exact hbudget

/-! ### The budget without wrapping -/

theorem wholeMilliseconds_bounds {low high : ℕ} {duration : Int64}
    (h : WholeMilliseconds low high duration) :
    0 ≤ duration.toInt ∧ duration.toInt ≤ 1000000 * high := by
  obtain ⟨ms, -, hhigh, hvalue⟩ := h
  omega

theorem startupBudget_bounds (process : Process) (h : Accepted process) :
    0 ≤ process.startupBudget.toInt ∧ process.startupBudget.toInt ≤ 30000000000 := by
  have hkind := h.kind
  unfold AcceptedKind at hkind
  unfold Process.startupBudget
  split
  · rename_i hjob
    rw [if_pos hjob] at hkind
    exact wholeMilliseconds_bounds hkind.2
  · rename_i hjob
    rw [if_neg hjob] at hkind
    split
    · decide
    · rename_i probe hprobe
      exact wholeMilliseconds_bounds (hkind.2.2 probe hprobe).startup

/-- The counter of `Validate` is exact while the number of processes keeps it small. -/
theorem counted_budget (spec : Spec) (h : AcceptedSpec spec)
    (hcount : spec.processes.length ≤ maxEncodedSpecBytes) :
    (spec.processes.foldl (fun budget process => budget + process.startupBudget) (0 : Int64)).toInt =
      exactSum Process.startupBudget spec.processes := by
  have hlimit : maxEncodedSpecBytes = 122880 := by decide
  refine toInt_foldl_add
    (fun process hm => startupBudget_bounds process (h.process process hm)) ?_
  omega

theorem exact_budget (spec : Spec) (h : AcceptedSpec spec)
    (hcount : spec.processes.length ≤ maxEncodedSpecBytes) :
    (spec.processes.map fun process => process.startupBudget.toInt).sum ≤ 25000000000 := by
  show exactSum Process.startupBudget spec.processes ≤ 25000000000
  have hmax : maxStartupBudget.toInt = 25000000000 := by decide
  have hbudget := h.budget
  rw [Int64.lt_iff_toInt_lt, counted_budget spec h hcount, hmax] at hbudget
  omega

end Sandcamp.Sdk
