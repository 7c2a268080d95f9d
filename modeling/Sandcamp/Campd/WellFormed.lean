import Sandcamp.Foundations.Nesting
import Sandcamp.Campd.Validate
import Mathlib.Algebra.BigOperators.Group.List.Basic
import Mathlib.Data.List.Perm.Basic

/-!
# What `validate` accepts, without its accumulators

`WellFormed` states the admission rules over all processes and all pairs of
mount targets at once. `validate_eq_ok` connects it to the loops of
`Campd.Validate`: the set of names, the running budget and the growing target
list decide exactly the order-free statement.
-/

namespace Sandcamp.Campd
open Foundations Foundations.UnixPath

/-! ### Paths -/

theorem validPath_true (v : Bytes) :
    validPath v true = true ↔ nul ∉ v ∧ cleanAbsolute v = true := by
  simp only [validPath, cleanAbsolute]
  by_cases h : nul ∈ v <;> simp [h]

theorem validPath_false (v : Bytes) :
    validPath v false = true ↔ nul ∉ v ∧ cleanAbsolute v = true ∧ names v ≠ [] := by
  by_cases hclean : cleanAbsolute v = true
  · have hroot := pathEq_root_iff v hclean
    have hparts := hclean
    simp only [cleanAbsolute, Bool.and_eq_true] at hparts
    have hbool : (pathEq v [slash] = false) ↔ names v ≠ [] := by
      rw [← Bool.not_eq_true, hroot]
    by_cases h : nul ∈ v <;> simp [validPath, h, hparts.1, hparts.2, hclean, hbool]
  · have hfalse : validPath v false = false := by
      simp only [cleanAbsolute, Bool.and_eq_true] at hclean
      by_cases habs : isAbsolute v = true
      · have hall : (components v).all Component.plain = false := by
          rw [← Bool.not_eq_true]
          exact fun h => hclean ⟨habs, h⟩
        simp [validPath, hall]
      · simp [validPath, habs]
    simp [hfalse, hclean]

theorem cleanAbsolute_of_validPath (v : Bytes) (root : Bool) (h : validPath v root = true) :
    cleanAbsolute v = true := by
  cases root with
  | true => exact ((validPath_true v).mp h).2
  | false => exact ((validPath_false v).mp h).2.1

/-! ### Names -/

theorem nameByte_lt (b : UInt8) (h : nameByte b = true) : b < 0x80 := by
  simp only [nameByte, Bool.or_eq_true, beq_iff_eq] at h
  rcases h with ((halnum | rfl) | rfl) | rfl
  · exact isAsciiAlphanumeric_lt b halnum
  · decide
  · decide
  · decide

theorem validName_ascii (name : Bytes) (h : validName name = true) : ∀ b ∈ name, b < 0x80 := by
  cases name with
  | nil => exact fun b hb => absurd hb List.not_mem_nil
  | cons first rest =>
    simp only [validName, Bool.and_eq_true, List.all_eq_true] at h
    exact fun b hb => nameByte_lt b (h.2 b hb)

/-! ### The rules for one process -/

structure WellFormedProbe (probe : Probe) : Prop where
  path : validHttpOriginForm probe.path = true
  port : probe.port ≠ 0 ∧ probe.port ≠ controlPort
  startup : withinLimits 1000 probe.startupTimeoutMs = true
  period : withinLimits 100 probe.periodMs = true
  timeout : withinLimits 100 probe.timeoutMs = true
  timeout_le : ¬probe.startupTimeoutMs < probe.timeoutMs
  thresholds : probe.failureThreshold ≠ 0 ∧ probe.successThreshold ≠ 0

/-- The lifecycle rules of the two kinds. -/
def WellFormedKind (process : CommonProcess) : Prop :=
  match process.kind with
  | .service =>
    process.completionTimeoutMs = none ∧
      ∀ probe, process.readinessProbe = some probe → WellFormedProbe probe
  | .runToCompletion =>
    process.readinessProbe = none ∧
      ∃ timeout, process.completionTimeoutMs = some timeout ∧ withinLimits 100 timeout = true

structure WellFormedCommon (process : CommonProcess) : Prop where
  name : validName process.name = true
  executable : validExecutable process.command = true
  command : ∀ value ∈ process.command, nul ∉ value
  workdir : process.workdir = [] ∨ validPath process.workdir true = true
  env : ∀ entry ∈ process.env.toList,
    validEnvironmentName entry.1 = true ∧ nul ∉ entry.2 ∧ entry.1 ≠ specEnvironment
  kind : WellFormedKind process

def WellFormedUser : ProcessUser → Prop
  | .named user => validUserName user.name = true
  | .numeric user => user.uid ≠ 0xFFFFFFFF ∧ user.gid ≠ 0xFFFFFFFF

/-- Every target a sidecar's mounts claim, in the order they are claimed. -/
def SidecarProcess.mountTargets (process : SidecarProcess) : List Bytes :=
  (if process.standardMounts then standardMountTargets else []) ++ process.diskMounts ++
    process.binds.map (·.target)

structure WellFormedSidecar (process : SidecarProcess) : Prop where
  common : WellFormedCommon process.toCommonProcess
  rootfs : validPath process.rootfs false = true
  overlayDevice : ∀ device, process.overlayDevice = some device → validPath device false = true
  user : ∀ user, process.user = some user → WellFormedUser user
  diskMounts : ∀ target ∈ process.diskMounts, validPath target false = true
  binds : ∀ bind ∈ process.binds,
    validPath bind.source false = true ∧ validPath bind.target false = true
  targets : Unnested (process.mountTargets.map names)

structure WellFormedMain (process : MainProcess) : Prop where
  common : WellFormedCommon process.toCommonProcess
  user : ∀ user, process.user = some user → WellFormedUser user

/-- What a process adds to the startup budget: a service its probe's startup
timeout, a job its completion timeout. -/
def CommonProcess.startupBudget (process : CommonProcess) : ℕ :=
  match process.kind with
  | .service => (process.readinessProbe.map (·.startupTimeoutMs.toNat)).getD 0
  | .runToCompletion => (process.completionTimeoutMs.map (·.toNat)).getD 0

structure WellFormed (spec : Spec) : Prop where
  version : spec.version = legacyRuntimeSpecVersion ∨ spec.version = runtimeSpecVersion
  sidecars : ∀ process ∈ spec.sidecars, WellFormedSidecar process
  main : ∀ process ∈ spec.main, WellFormedMain process
  names : (spec.processes.map (·.name)).Nodup
  service : ∃ process ∈ spec.processes, process.kind = .service
  budget : (spec.processes.map (·.startupBudget)).sum ≤ 25000

/-! ### Accumulators -/

/-- What one accepted process does to the accumulators. -/
def Totals.advance (totals : Totals) (process : CommonProcess) : Totals where
  names := process.name :: totals.names
  startupBudgetMs := totals.startupBudgetMs + UInt64.ofNat process.startupBudget
  serviceCount := totals.serviceCount + if process.kind = .service then 1 else 0

theorem checkedAdd_eq_some (a b c : UInt64) :
    checkedAdd a b = some c ↔ a.toNat + b.toNat < 2 ^ 64 ∧ c = a + b := by
  unfold checkedAdd
  split_ifs with h
  · rw [Option.some.injEq]
    exact ⟨fun he => ⟨h, he.symm⟩, fun he => he.2.symm⟩
  · exact iff_of_false (fun he => by cases he) (fun he => h he.1)

theorem addStartupBudget_eq_ok (a b c : UInt64) :
    addStartupBudget a b = .ok c ↔ a.toNat + b.toNat < 2 ^ 64 ∧ c = a + b := by
  rw [← checkedAdd_eq_some]
  cases h : checkedAdd a b <;> simp [addStartupBudget, h]

theorem withinLimits_eq (minimum value : UInt64) :
    withinLimits minimum value = true ↔
      minimum.toNat ≤ value.toNat ∧ value.toNat ≤ 30000 := by
  simp [withinLimits, agsReadyTimeoutMs, UInt64.le_iff_toNat_le]

theorem validateProbe_eq_ok (name : Bytes) (probe : Probe) :
    validateProbe name probe = .ok () ↔ WellFormedProbe probe := by
  simp only [validateProbe, bind_eq_ok, exists_unit, forEach_eq_ok, rejectIf_eq_ok,
    List.forall_mem_cons, List.not_mem_nil, false_implies, implies_true, and_true,
    Bool.not_eq_false, not_or]
  constructor
  · rintro ⟨hpath, hport, hcontrol, hstartup, ⟨hperiod, htimeout⟩, hle, hthresholds⟩
    exact ⟨hpath, ⟨hport, hcontrol⟩, hstartup, hperiod, htimeout, hle, hthresholds⟩
  · rintro ⟨hpath, ⟨hport, hcontrol⟩, hstartup, hperiod, htimeout, hle, hthresholds⟩
    exact ⟨hpath, hport, hcontrol, hstartup, ⟨hperiod, htimeout⟩, hle, hthresholds⟩

theorem validateEnvironment_eq_ok (name : Bytes) (env : Env) :
    validateEnvironment name env = .ok () ↔ ∀ entry ∈ env.toList,
      validEnvironmentName entry.1 = true ∧ nul ∉ entry.2 ∧ entry.1 ≠ specEnvironment := by
  simp only [validateEnvironment, forEach_eq_ok, bind_eq_ok, exists_unit, rejectIf_eq_ok, not_or,
    Bool.not_eq_false, and_assoc]

/-- The accumulators after the `match kind`. -/
def Totals.charge (totals : Totals) (process : CommonProcess) : Totals :=
  { totals with
    startupBudgetMs := totals.startupBudgetMs + UInt64.ofNat process.startupBudget
    serviceCount := totals.serviceCount + if process.kind = .service then 1 else 0 }

theorem validateKind_eq_ok (process : CommonProcess) (totals totals' : Totals) :
    validateKind process totals = .ok totals' ↔
      WellFormedKind process ∧
        totals.startupBudgetMs.toNat + process.startupBudget < 2 ^ 64 ∧
        totals' = totals.charge process := by
  cases hk : process.kind with
  | service =>
    cases hp : process.readinessProbe with
    | none =>
      have hfit : totals.startupBudgetMs.toNat + 0 < 2 ^ 64 := totals.startupBudgetMs.toNat_lt
      have hcharge : totals.charge process =
          { totals with serviceCount := totals.serviceCount + 1 } := by
        simp [Totals.charge, CommonProcess.startupBudget, hk, hp]
      simp only [validateKind, hk, hp, WellFormedKind, CommonProcess.startupBudget, bind_eq_ok,
        exists_unit, rejectIf_eq_ok, Option.map_none, Option.getD_none, Except.ok.injEq, hfit,
        hcharge, true_and, reduceCtorEq, false_implies, implies_true, and_true, Bool.not_eq_true,
        Option.isSome_eq_false_iff, Option.isNone_iff_eq_none]
      exact and_congr_right fun _ => eq_comm
    | some probe =>
      have hcharge : totals.charge process =
          { totals with
            startupBudgetMs := totals.startupBudgetMs + probe.startupTimeoutMs
            serviceCount := totals.serviceCount + 1 } := by
        simp [Totals.charge, CommonProcess.startupBudget, hk, hp]
      simp only [validateKind, hk, hp, WellFormedKind, CommonProcess.startupBudget, bind_eq_ok,
        exists_unit, rejectIf_eq_ok, validateProbe_eq_ok, addStartupBudget_eq_ok,
        Option.map_some, Option.getD_some, Except.ok.injEq, hcharge, Option.some.injEq,
        forall_eq', Bool.not_eq_true, Option.isSome_eq_false_iff, Option.isNone_iff_eq_none]
      constructor
      · rintro ⟨hc, hprobe, budget, ⟨hfit, rfl⟩, rfl⟩
        exact ⟨⟨hc, hprobe⟩, hfit, rfl⟩
      · rintro ⟨⟨hc, hprobe⟩, hfit, rfl⟩
        exact ⟨hc, hprobe, _, ⟨hfit, rfl⟩, rfl⟩
  | runToCompletion =>
    cases ht : process.completionTimeoutMs with
    | none =>
      simp only [validateKind, hk, ht, WellFormedKind, bind_eq_ok, reduceCtorEq,
        false_and, and_false, exists_const]
    | some timeout =>
      have hcharge : totals.charge process =
          { totals with startupBudgetMs := totals.startupBudgetMs + timeout } := by
        simp [Totals.charge, CommonProcess.startupBudget, hk, ht]
      simp only [validateKind, hk, ht, WellFormedKind, CommonProcess.startupBudget, bind_eq_ok,
        exists_unit, rejectIf_eq_ok, addStartupBudget_eq_ok, Option.map_some, Option.getD_some,
        Except.ok.injEq, hcharge, Option.some.injEq, exists_eq_left', Bool.not_eq_false,
        Bool.not_eq_true, Option.isSome_eq_false_iff, Option.isNone_iff_eq_none]
      constructor
      · rintro ⟨hp, hlim, budget, ⟨hfit, rfl⟩, rfl⟩
        exact ⟨⟨hp, hlim⟩, hfit, rfl⟩
      · rintro ⟨⟨hp, hlim⟩, hfit, rfl⟩
        exact ⟨hp, hlim, _, ⟨hfit, rfl⟩, rfl⟩

theorem validateCommon_eq_ok (process : CommonProcess) (totals totals' : Totals) :
    validateCommon process totals = .ok totals' ↔
      WellFormedCommon process ∧ process.name ∉ totals.names ∧
        totals.startupBudgetMs.toNat + process.startupBudget < 2 ^ 64 ∧
        totals' = totals.advance process := by
  simp only [validateCommon, bind_eq_ok, exists_unit, rejectIf_eq_ok, validateEnvironment_eq_ok,
    validateKind_eq_ok, Bool.not_eq_false]
  constructor
  · rintro ⟨hname, hfresh, hexec, hnul, hworkdir, henv, hkind, hfit, rfl⟩
    refine ⟨⟨hname, hexec, ?_, ?_, henv, hkind⟩, hfresh, hfit, rfl⟩
    · exact fun value hv hn => hnul ⟨value, hv, hn⟩
    · by_cases hw : process.workdir = []
      · exact Or.inl hw
      · exact Or.inr (by simpa [hw] using hworkdir)
  · rintro ⟨hw, hfresh, hfit, rfl⟩
    refine ⟨hw.name, hfresh, hw.executable, ?_, ?_, hw.env, hw.kind, hfit, rfl⟩
    · rintro ⟨value, hv, hn⟩
      exact hw.command value hv hn
    · rintro ⟨hne, hbad⟩
      rcases hw.workdir with h | h
      · exact hne h
      · rw [h] at hbad
        cases hbad

/-! ### Mount targets of one sidecar -/

theorem claimTarget_eq_ok (name what : Bytes) (targets : List Bytes) (target : Bytes)
    (targets' : List Bytes) (htargets : ∀ t ∈ targets, cleanAbsolute t = true)
    (htarget : cleanAbsolute target = true) :
    claimTarget name what targets target = .ok targets' ↔
      (∀ previous ∈ targets, ¬Nested (names previous) (names target)) ∧
        targets' = targets ++ [target] := by
  simp only [claimTarget, bind_eq_ok, exists_unit, forEach_eq_ok, rejectIf_eq_ok,
    Except.ok.injEq, not_or]
  constructor
  · rintro ⟨h, rfl⟩
    refine ⟨fun previous hp hn => ?_, rfl⟩
    obtain ⟨-, hunder, hover⟩ := h previous hp
    rw [startsWith_iff target previous htarget (htargets previous hp)] at hunder
    rw [startsWith_iff previous target (htargets previous hp) htarget] at hover
    exact hn.elim hunder hover
  · rintro ⟨h, rfl⟩
    refine ⟨fun previous hp => ?_, rfl⟩
    have hn := h previous hp
    rw [pathEq_iff target previous htarget (htargets previous hp),
      startsWith_iff target previous htarget (htargets previous hp),
      startsWith_iff previous target (htargets previous hp) htarget]
    exact ⟨fun he => hn (he ▸ nested_self _), fun hp => hn (Or.inl hp), fun hp => hn (Or.inr hp)⟩

theorem claimDiskMount_eq_ok (name : Bytes) (targets : List Bytes) (target : Bytes)
    (targets' : List Bytes) (htargets : ∀ t ∈ targets, cleanAbsolute t = true) :
    claimDiskMount name targets target = .ok targets' ↔
      validPath target false = true ∧
        (∀ previous ∈ targets, ¬Nested (names previous) (names target)) ∧
        targets' = targets ++ [target] := by
  simp only [claimDiskMount, bind_eq_ok, exists_unit, rejectIf_eq_ok, Bool.not_eq_false]
  refine and_congr_right fun hv => ?_
  exact claimTarget_eq_ok name _ targets target targets' htargets
    (cleanAbsolute_of_validPath target false hv)

theorem claimBind_eq_ok (name : Bytes) (targets : List Bytes) (bind : Bind)
    (targets' : List Bytes) (htargets : ∀ t ∈ targets, cleanAbsolute t = true) :
    claimBind name targets bind = .ok targets' ↔
      (validPath bind.source false = true ∧ validPath bind.target false = true) ∧
        (∀ previous ∈ targets, ¬Nested (names previous) (names bind.target)) ∧
        targets' = targets ++ [bind.target] := by
  simp only [claimBind, bind_eq_ok, exists_unit, rejectIf_eq_ok, not_or, Bool.not_eq_false]
  refine and_congr_right fun hv => ?_
  exact claimTarget_eq_ok name _ targets bind.target targets' htargets
    (cleanAbsolute_of_validPath bind.target false hv.2)

theorem standardMountTargets_clean : ∀ t ∈ standardMountTargets, cleanAbsolute t = true := by
  decide

theorem standardMountTargets_unnested : Unnested (standardMountTargets.map names) := by
  have hn : standardMountTargets.map names =
      [[lit "proc"], [lit "dev"], [lit "sys"], [lit "tmp"], [lit "run"],
        [lit "etc", lit "resolv.conf"], [lit "etc", lit "hosts"]] := by decide
  rw [hn]
  simp only [Unnested, Nested, List.pairwise_cons]
  decide

theorem validateUser_eq_ok (name : Bytes) (user : ProcessUser) :
    validateUser name user = .ok () ↔ WellFormedUser user := by
  cases user with
  | named user => simp only [validateUser, rejectIf_eq_ok, WellFormedUser, Bool.not_eq_false]
  | numeric user => simp only [validateUser, rejectIf_eq_ok, WellFormedUser, not_or, ne_eq]

theorem validateUsers_eq_ok (name : Bytes) (user : Option ProcessUser) :
    forEach (validateUser name) user.toList = .ok () ↔
      ∀ u, user = some u → WellFormedUser u := by
  simp only [forEach_eq_ok, Option.mem_toList, validateUser_eq_ok]

/-- The two target loops of a sidecar, run one after the other. -/
theorem claimAll_eq_ok (name : Bytes) (diskMounts : List Bytes) (binds : List Bind)
    (targets : List Bytes) (htargets : ∀ t ∈ targets, cleanAbsolute t = true)
    (hun : Unnested (targets.map names)) :
    (∃ next, diskMounts.foldlM (claimDiskMount name) targets = .ok next ∧
      ∃ last, binds.foldlM (claimBind name) next = .ok last) ↔
      (∀ target ∈ diskMounts, validPath target false = true) ∧
        (∀ bind ∈ binds, validPath bind.source false = true ∧ validPath bind.target false = true) ∧
        Unnested ((targets ++ diskMounts ++ binds.map (·.target)).map names) := by
  have hdisk := claims_eq_ok (claimDiskMount name) id names
    (fun t => validPath t false = true) (cleanAbsolute · = true)
    (claimDiskMount_eq_ok name) (fun t h => cleanAbsolute_of_validPath t false h) diskMounts
  have hbind := claims_eq_ok (claimBind name) (·.target) names
    (fun b => validPath b.source false = true ∧ validPath b.target false = true)
    (cleanAbsolute · = true)
    (claimBind_eq_ok name) (fun b h => cleanAbsolute_of_validPath b.target false h.2) binds
  have hnextClean : (∀ t ∈ diskMounts, validPath t false = true) →
      ∀ t ∈ targets ++ diskMounts, cleanAbsolute t = true := by
    intro hv t ht
    rcases List.mem_append.mp ht with ht | ht
    · exact htargets t ht
    · exact cleanAbsolute_of_validPath t false (hv t ht)
  simp only [List.map_id] at hdisk
  constructor
  · rintro ⟨next, hnext, last, hlast⟩
    obtain ⟨hvd, rfl, hu⟩ := (hdisk targets next htargets hun).mp hnext
    obtain ⟨hvb, rfl, hu'⟩ := (hbind _ last (hnextClean hvd) hu).mp hlast
    exact ⟨hvd, hvb, hu'⟩
  · rintro ⟨hvd, hvb, hu'⟩
    have hu : Unnested ((targets ++ diskMounts).map names) :=
      hu'.sublist (List.Sublist.map names (List.sublist_append_left _ _))
    exact ⟨_, (hdisk targets _ htargets hun).mpr ⟨hvd, rfl, hu⟩,
      _, (hbind _ _ (hnextClean hvd) hu).mpr ⟨hvb, rfl, hu'⟩⟩

theorem validateSidecarFields_eq_ok (process : SidecarProcess)
    (hcommon : WellFormedCommon process.toCommonProcess) :
    validateSidecarFields process = .ok () ↔ WellFormedSidecar process := by
  have hstart : ∀ t ∈ (if process.standardMounts then standardMountTargets else []),
      cleanAbsolute t = true := by
    split_ifs
    · exact standardMountTargets_clean
    · simp
  have hun : Unnested ((if process.standardMounts then standardMountTargets else []).map names) := by
    split_ifs
    · exact standardMountTargets_unnested
    · exact List.Pairwise.nil
  have hclaims := claimAll_eq_ok process.name process.diskMounts process.binds _ hstart hun
  simp only [validateSidecarFields, bind_eq_ok, exists_unit, rejectIf_eq_ok, validateUser_eq_ok,
    forEach_eq_ok, Option.mem_toList, Bool.not_eq_false, and_true]
  constructor
  · rintro ⟨hroot, hdevice, huser, hrest⟩
    obtain ⟨hvd, hvb, hu⟩ := hclaims.mp hrest
    exact ⟨hcommon, hroot, hdevice, huser, hvd, hvb, hu⟩
  · intro h
    exact ⟨h.rootfs, h.overlayDevice, h.user, hclaims.mpr ⟨h.diskMounts, h.binds, h.targets⟩⟩

/-! ### The two process loops -/

/-- Every process in turn has a fresh name and leaves the budget within `u64`. -/
def Totals.Admits (totals : Totals) : List CommonProcess → Prop
  | [] => True
  | process :: rest =>
    (process.name ∉ totals.names ∧
      totals.startupBudgetMs.toNat + process.startupBudget < 2 ^ 64) ∧
      (totals.advance process).Admits rest

def Totals.advanceAll (totals : Totals) (processes : List CommonProcess) : Totals :=
  processes.foldl Totals.advance totals

theorem advance_budget (totals : Totals) (process : CommonProcess)
    (h : totals.startupBudgetMs.toNat + process.startupBudget < 2 ^ 64) :
    (totals.advance process).startupBudgetMs.toNat =
      totals.startupBudgetMs.toNat + process.startupBudget := by
  have hb : process.startupBudget < 2 ^ 64 := by omega
  rw [Totals.advance, UInt64.toNat_add, UInt64.toNat_ofNat_of_lt' hb, Nat.mod_eq_of_lt h]

theorem admits_append (totals : Totals) (xs ys : List CommonProcess) :
    totals.Admits (xs ++ ys) ↔ totals.Admits xs ∧ (totals.advanceAll xs).Admits ys := by
  induction xs generalizing totals with
  | nil => simp [Totals.Admits, Totals.advanceAll]
  | cons x xs ih =>
    simp only [List.cons_append, Totals.Admits, ih, and_assoc]
    rfl

theorem admits_iff (totals : Totals) (processes : List CommonProcess) :
    totals.Admits processes ↔
      (processes.map (·.name)).Nodup ∧ (∀ process ∈ processes, process.name ∉ totals.names) ∧
        totals.startupBudgetMs.toNat + (processes.map (·.startupBudget)).sum < 2 ^ 64 := by
  induction processes generalizing totals with
  | nil =>
    have h := totals.startupBudgetMs.toNat_lt
    simp only [Totals.Admits, List.map_nil, List.nodup_nil, List.not_mem_nil, false_implies,
      implies_true, List.sum_nil, Nat.add_zero, h, and_self]
  | cons process rest ih =>
    simp only [Totals.Admits, ih, List.map_cons, List.nodup_cons, List.sum_cons,
      List.forall_mem_cons, List.mem_map, not_exists, not_and]
    constructor
    · rintro ⟨⟨hfresh, hfit⟩, hnodup, hrest, hsum⟩
      rw [advance_budget totals process hfit] at hsum
      refine ⟨⟨fun p hp he => ?_, hnodup⟩, ⟨hfresh, fun p hp hm => ?_⟩, by omega⟩
      · exact hrest p hp (by simp [Totals.advance, he])
      · exact hrest p hp (by simp [Totals.advance, hm])
    · rintro ⟨⟨hdistinct, hnodup⟩, ⟨hfresh, hrest⟩, hsum⟩
      have hfit : totals.startupBudgetMs.toNat + process.startupBudget < 2 ^ 64 := by omega
      rw [advance_budget totals process hfit]
      refine ⟨⟨hfresh, hfit⟩, hnodup, fun p hp hm => ?_, by omega⟩
      simp only [Totals.advance, List.mem_cons] at hm
      rcases hm with hm | hm
      · exact hdistinct p hp hm
      · exact hrest p hp hm

theorem advanceAll_serviceCount (totals : Totals) (processes : List CommonProcess) :
    (totals.advanceAll processes).serviceCount =
      totals.serviceCount + processes.countP (·.kind = .service) := by
  induction processes generalizing totals with
  | nil => rfl
  | cons process rest ih =>
    have h := ih (totals.advance process)
    simp only [Totals.advanceAll, List.foldl_cons] at h ⊢
    rw [h, List.countP_cons]
    simp only [Totals.advance, decide_eq_true_eq]
    omega

theorem advanceAll_budget (totals : Totals) (processes : List CommonProcess)
    (h : totals.Admits processes) :
    (totals.advanceAll processes).startupBudgetMs.toNat =
      totals.startupBudgetMs.toNat + (processes.map (·.startupBudget)).sum := by
  induction processes generalizing totals with
  | nil => rfl
  | cons process rest ih =>
    have hrest := ih (totals.advance process) h.2
    simp only [Totals.advanceAll, List.foldl_cons] at hrest ⊢
    rw [hrest, advance_budget totals process h.1.2, List.map_cons, List.sum_cons]
    omega

theorem validateLoop_eq_ok {α : Type} (step : Totals → α → Except SpecError Totals)
    (common : α → CommonProcess) (valid : α → Prop)
    (hstep : ∀ totals process totals', step totals process = .ok totals' ↔
      valid process ∧ ((common process).name ∉ totals.names ∧
        totals.startupBudgetMs.toNat + (common process).startupBudget < 2 ^ 64) ∧
        totals' = totals.advance (common process))
    (processes : List α) (totals totals' : Totals) :
    processes.foldlM step totals = .ok totals' ↔
      (∀ process ∈ processes, valid process) ∧ totals.Admits (processes.map common) ∧
        totals' = totals.advanceAll (processes.map common) := by
  induction processes generalizing totals with
  | nil =>
    simp only [List.foldlM_nil, List.not_mem_nil, false_implies, implies_true, List.map_nil,
      Totals.Admits, Totals.advanceAll, List.foldl_nil, true_and]
    exact ⟨fun h => (Except.ok.inj h).symm, fun h => h ▸ rfl⟩
  | cons process rest ih =>
    simp only [foldlM_cons_eq_ok, hstep, ih, List.forall_mem_cons, List.map_cons, Totals.Admits]
    constructor
    · rintro ⟨next, ⟨hv, hadmits, rfl⟩, hvs, hrest, rfl⟩
      exact ⟨⟨hv, hvs⟩, ⟨hadmits, hrest⟩, rfl⟩
    · rintro ⟨⟨hv, hvs⟩, ⟨hadmits, hrest⟩, rfl⟩
      exact ⟨_, ⟨hv, hadmits, rfl⟩, hvs, hrest, rfl⟩

theorem validateSidecar_eq_ok (totals : Totals) (process : SidecarProcess) (totals' : Totals) :
    validateSidecar totals process = .ok totals' ↔
      WellFormedSidecar process ∧ (process.name ∉ totals.names ∧
        totals.startupBudgetMs.toNat + process.startupBudget < 2 ^ 64) ∧
        totals' = totals.advance process.toCommonProcess := by
  simp only [validateSidecar, bind_eq_ok, exists_unit, validateCommon_eq_ok, Except.ok.injEq]
  constructor
  · rintro ⟨next, ⟨hcommon, hfresh, hfit, rfl⟩, hfields, rfl⟩
    exact ⟨(validateSidecarFields_eq_ok process hcommon).mp hfields, ⟨hfresh, hfit⟩, rfl⟩
  · rintro ⟨h, ⟨hfresh, hfit⟩, rfl⟩
    exact ⟨_, ⟨h.common, hfresh, hfit, rfl⟩,
      (validateSidecarFields_eq_ok process h.common).mpr h, rfl⟩

theorem validateMain_eq_ok (totals : Totals) (process : MainProcess) (totals' : Totals) :
    validateMain totals process = .ok totals' ↔
      WellFormedMain process ∧ (process.name ∉ totals.names ∧
        totals.startupBudgetMs.toNat + process.startupBudget < 2 ^ 64) ∧
        totals' = totals.advance process.toCommonProcess := by
  simp only [validateMain, bind_eq_ok, exists_unit, validateCommon_eq_ok, validateUsers_eq_ok,
    Except.ok.injEq]
  constructor
  · rintro ⟨next, ⟨hcommon, hfresh, hfit, rfl⟩, huser, rfl⟩
    exact ⟨⟨hcommon, huser⟩, ⟨hfresh, hfit⟩, rfl⟩
  · rintro ⟨h, ⟨hfresh, hfit⟩, rfl⟩
    exact ⟨_, ⟨h.common, hfresh, hfit, rfl⟩, h.user, rfl⟩

/-! ### The whole declaration -/

theorem service_counted (processes : List CommonProcess) :
    processes.countP (·.kind = .service) ≠ 0 ↔ ∃ process ∈ processes, process.kind = .service := by
  rw [← Nat.pos_iff_ne_zero, List.countP_pos_iff]
  simp

theorem processes_ne_nil_of_service (spec : Spec)
    (h : ∃ process ∈ spec.processes, process.kind = .service) :
    spec.sidecars.length + spec.main.length ≠ 0 := by
  obtain ⟨process, hmem, -⟩ := h
  have hlen : spec.processes.length = spec.sidecars.length + spec.main.length := by
    simp [Spec.processes]
  have hpos := List.length_pos_of_mem hmem
  omega

/-- `validate` accepts exactly the well-formed declarations. -/
theorem validate_eq_ok (spec : Spec) : validate spec = .ok () ↔ WellFormed spec := by
  have hside := validateLoop_eq_ok validateSidecar (·.toCommonProcess) WellFormedSidecar
    validateSidecar_eq_ok spec.sidecars
  have hmain := validateLoop_eq_ok validateMain (·.toCommonProcess) WellFormedMain
    validateMain_eq_ok spec.main
  have hall := admits_append ⟨[], 0, 0⟩ (spec.sidecars.map (·.toCommonProcess))
    (spec.main.map (·.toCommonProcess))
  have hadvance : (Totals.advanceAll ⟨[], 0, 0⟩ (spec.sidecars.map (·.toCommonProcess))).advanceAll
      (spec.main.map (·.toCommonProcess)) = Totals.advanceAll ⟨[], 0, 0⟩ spec.processes := by
    simp only [Totals.advanceAll, Spec.processes, List.foldl_append]
  have hcount : (Totals.advanceAll ⟨[], 0, 0⟩ spec.processes).serviceCount ≠ 0 ↔
      ∃ process ∈ spec.processes, process.kind = .service := by
    rw [advanceAll_serviceCount, Nat.zero_add, service_counted]
  have hbudget : ∀ h : Totals.Admits ⟨[], 0, 0⟩ spec.processes,
      ¬maxStartupBudgetMs < (Totals.advanceAll ⟨[], 0, 0⟩ spec.processes).startupBudgetMs ↔
        (spec.processes.map (·.startupBudget)).sum ≤ 25000 := by
    intro h
    rw [UInt64.lt_iff_toNat_lt, advanceAll_budget _ _ h]
    simp [maxStartupBudgetMs]
  simp only [validate, bind_eq_ok, exists_unit, rejectIf_eq_ok]
  constructor
  · rintro ⟨hversion, -, t, ht, t', ht', hservice, hlimit⟩
    obtain ⟨hvs, has, rfl⟩ := (hside _ t).mp ht
    obtain ⟨hvm, ham, rfl⟩ := (hmain _ t').mp ht'
    have hadmits : Totals.Admits ⟨[], 0, 0⟩ spec.processes := hall.mpr ⟨has, ham⟩
    rw [hadvance] at hservice hlimit
    refine ⟨?_, hvs, hvm, ((admits_iff _ _).mp hadmits).1, hcount.mp hservice,
      (hbudget hadmits).mp hlimit⟩
    by_cases h2 : spec.version = legacyRuntimeSpecVersion
    · exact Or.inl h2
    · exact Or.inr (by simpa [h2] using hversion)
  · intro h
    have hadmits : Totals.Admits ⟨[], 0, 0⟩ spec.processes := by
      rw [admits_iff]
      refine ⟨h.names, fun _ _ => List.not_mem_nil, ?_⟩
      have hsum := h.budget
      show 0 + (spec.processes.map (·.startupBudget)).sum < 2 ^ 64
      omega
    obtain ⟨has, ham⟩ := hall.mp hadmits
    refine ⟨?_, processes_ne_nil_of_service spec h.service,
      _, (hside _ _).mpr ⟨h.sidecars, has, rfl⟩, _, (hmain _ _).mpr ⟨h.main, ham, rfl⟩, ?_, ?_⟩
    · rintro ⟨h2, h3⟩
      exact h.version.elim h2 h3
    · rw [hadvance]
      exact hcount.mpr h.service
    · rw [hadvance]
      exact (hbudget hadmits).mpr h.budget

/-! ### The order of the lists -/

/-- One sidecar with its disk mounts and its binds in another order. -/
def SidecarShuffled (process process' : SidecarProcess) : Prop :=
  process.diskMounts.Perm process'.diskMounts ∧ process.binds.Perm process'.binds ∧
    process' = { process with diskMounts := process'.diskMounts, binds := process'.binds }

/-- One declaration with its lists in another order. -/
structure Shuffled (spec spec' : Spec) : Prop where
  version : spec.version = spec'.version
  sidecars : ∃ order, spec.sidecars.Perm order ∧
    List.Forall₂ SidecarShuffled order spec'.sidecars
  main : spec.main.Perm spec'.main

theorem mountTargets_perm {process process' : SidecarProcess}
    (h : SidecarShuffled process process') :
    process.mountTargets.Perm process'.mountTargets := by
  obtain ⟨hdisk, hbinds, hrest⟩ := h
  have hstandard : process'.standardMounts = process.standardMounts := by rw [hrest]
  unfold SidecarProcess.mountTargets
  rw [hstandard]
  exact ((List.Perm.refl _).append hdisk).append (hbinds.map _)

theorem toCommonProcess_shuffled {process process' : SidecarProcess}
    (h : SidecarShuffled process process') :
    process.toCommonProcess = process'.toCommonProcess := by
  rw [h.2.2]

theorem wellFormedSidecar_shuffled {process process' : SidecarProcess}
    (h : SidecarShuffled process process') (hw : WellFormedSidecar process) :
    WellFormedSidecar process' := by
  have htargets := (mountTargets_perm h).map names
  have hcommon := toCommonProcess_shuffled h
  obtain ⟨hdisk, hbinds, hrest⟩ := h
  refine ⟨hcommon ▸ hw.common, ?_, ?_, ?_, ?_, ?_, hw.targets.perm htargets⟩
  · rw [hrest]
    exact hw.rootfs
  · rw [hrest]
    exact hw.overlayDevice
  · rw [hrest]
    exact hw.user
  · exact fun target hm => hw.diskMounts target (hdisk.mem_iff.mpr hm)
  · exact fun bind hm => hw.binds bind (hbinds.mem_iff.mpr hm)

theorem sidecars_shuffled {order sidecars : List SidecarProcess}
    (h : List.Forall₂ SidecarShuffled order sidecars) :
    order.map (·.toCommonProcess) = sidecars.map (·.toCommonProcess) ∧
      ((∀ process ∈ order, WellFormedSidecar process) →
        ∀ process ∈ sidecars, WellFormedSidecar process) := by
  induction h with
  | nil => exact ⟨rfl, fun h => h⟩
  | cons hhead _ ih =>
    rw [List.map_cons, List.map_cons, toCommonProcess_shuffled hhead, ih.1, List.forall_mem_cons,
      List.forall_mem_cons]
    exact ⟨rfl, fun h => ⟨wellFormedSidecar_shuffled hhead h.1, ih.2 h.2⟩⟩

theorem processes_shuffled {spec spec' : Spec} (h : Shuffled spec spec') :
    spec.processes.Perm spec'.processes := by
  obtain ⟨order, horder, hsame⟩ := h.sidecars
  unfold Spec.processes
  rw [← (sidecars_shuffled hsame).1]
  exact (horder.map _).append (h.main.map _)

theorem wellFormed_shuffled {spec spec' : Spec} (h : Shuffled spec spec') (hw : WellFormed spec) :
    WellFormed spec' := by
  have hprocesses := processes_shuffled h
  obtain ⟨order, horder, hsame⟩ := h.sidecars
  refine ⟨?_, ?_, ?_, ?_, ?_, ?_⟩
  · rw [← h.version]
    exact hw.version
  · exact (sidecars_shuffled hsame).2 fun process hm =>
      hw.sidecars process (horder.mem_iff.mpr hm)
  · exact fun process hm => hw.main process (h.main.mem_iff.mpr hm)
  · exact ((hprocesses.map (·.name)).nodup_iff).mp hw.names
  · obtain ⟨process, hm, hkind⟩ := hw.service
    exact ⟨process, hprocesses.mem_iff.mp hm, hkind⟩
  · rw [← (hprocesses.map (·.startupBudget)).sum_eq]
    exact hw.budget

theorem Shuffled.symm {spec spec' : Spec} (h : Shuffled spec spec') : Shuffled spec' spec := by
  obtain ⟨order, horder, hsame⟩ := h.sidecars
  have hback : List.Forall₂ SidecarShuffled spec'.sidecars order := by
    refine hsame.flip.imp fun process' process hshuffled => ?_
    obtain ⟨hdisk, hbinds, hrest⟩ := hshuffled
    refine ⟨hdisk.symm, hbinds.symm, ?_⟩
    rw [hrest]
  have hcomp : Relation.Comp (List.Forall₂ SidecarShuffled) List.Perm spec'.sidecars
      spec.sidecars := ⟨order, hback, horder.symm⟩
  rw [List.forall₂_comp_perm_eq_perm_comp_forall₂] at hcomp
  obtain ⟨order', horder', hsame'⟩ := hcomp
  exact ⟨h.version.symm, ⟨order', horder', hsame'⟩, h.main.symm⟩

/-- `validate` accepts exactly the well-formed declarations, whatever order their lists are in. -/
theorem validate_accepts (spec : Spec) :
    (validate spec = .ok () ↔ WellFormed spec) ∧
      ∀ spec', Shuffled spec spec' → (validate spec = .ok () ↔ validate spec' = .ok ()) := by
  refine ⟨validate_eq_ok spec, fun spec' h => ?_⟩
  rw [validate_eq_ok, validate_eq_ok]
  exact ⟨wellFormed_shuffled h, wellFormed_shuffled h.symm⟩

end Sandcamp.Campd
