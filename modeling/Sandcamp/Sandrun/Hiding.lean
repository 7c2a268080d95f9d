import Sandcamp.Sandrun.Targets

/-!
# No mount hides another one

The check of the resolved targets covers every mount but the one on `/sys/fs/cgroup`.
So the mounts keep apart exactly when that one lies below the one on `/sys`, as it
does in an image without symbolic links there, or would have passed the check too.
-/

namespace Sandcamp.Sandrun
open Foundations Foundations.UnixPath

/-! ### Paths and positions -/

section Paths

variable {rootfs : Bytes}

/-- The path lies below the base and is not the base. -/
def StrictlyUnder (base path : Bytes) : Prop :=
  startsWith path base = true ∧ pathEq path base = false

/-- The paths are equal, or one lies below the other. -/
def Overlap (a b : Bytes) : Prop := startsWith a b = true ∨ startsWith b a = true

instance (base path : Bytes) : Decidable (StrictlyUnder base path) :=
  inferInstanceAs (Decidable (_ ∧ _))

instance (a b : Bytes) : Decidable (Overlap a b) := inferInstanceAs (Decidable (_ ∨ _))

theorem startsWith_physical (hroot : rootfs ≠ []) {p q : Position} (hp : Proper p)
    (hq : Proper q) : startsWith (physical rootfs p) (physical rootfs q) = true ↔ q <+: p := by
  unfold startsWith
  rw [List.isPrefixOf_iff_prefix, components_physical rootfs p hroot hp,
    components_physical rootfs q hroot hq, List.prefix_append_right_inj]
  exact map_normal_prefix q p

theorem pathEq_physical (hroot : rootfs ≠ []) {p q : Position} (hp : Proper p) (hq : Proper q) :
    pathEq (physical rootfs p) (physical rootfs q) = true ↔ p = q := by
  unfold pathEq
  rw [beq_iff_eq, components_physical rootfs p hroot hp, components_physical rootfs q hroot hq]
  constructor
  · intro h
    have hinjective : Function.Injective Component.normal := fun _ _ h => Component.normal.inj h
    exact List.map_injective_iff.mpr hinjective (List.append_cancel_left h)
  · rintro rfl
    rfl

theorem physical_injective (hroot : rootfs ≠ []) {p q : Position} (hp : Proper p) (hq : Proper q)
    (h : physical rootfs p = physical rootfs q) : p = q := by
  apply (pathEq_physical hroot hp hq).mp
  rw [h]
  exact beq_self_eq_true _

theorem strictlyUnder_physical (hroot : rootfs ≠ []) {base p : Position} (hbase : Proper base)
    (hp : Proper p) :
    StrictlyUnder (physical rootfs base) (physical rootfs p) ↔ base <+: p ∧ base ≠ p := by
  unfold StrictlyUnder
  rw [startsWith_physical hroot hp hbase, ← Bool.not_eq_true, pathEq_physical hroot hp hbase]
  exact and_congr_right fun _ => ne_comm

theorem strictlyUnder_root (hroot : rootfs ≠ []) {p : Position} (hp : Proper p) :
    StrictlyUnder rootfs (physical rootfs p) ↔ p ≠ [] := by
  have h : StrictlyUnder rootfs (physical rootfs p) ↔ [] <+: p ∧ [] ≠ p :=
    strictlyUnder_physical hroot (fun _ hm => absurd hm List.not_mem_nil) hp
  rw [h]
  constructor
  · rintro ⟨-, hne⟩ rfl
    exact hne rfl
  · intro hne
    exact ⟨List.nil_prefix, fun he => hne he.symm⟩

theorem overlap_physical (hroot : rootfs ≠ []) {p q : Position} (hp : Proper p) (hq : Proper q) :
    Overlap (physical rootfs p) (physical rootfs q) ↔ Nested p q := by
  unfold Overlap Nested
  rw [startsWith_physical hroot hp hq, startsWith_physical hroot hq hp]
  exact or_comm

theorem hasRoot_physical (positions : Position) (h : hasRoot rootfs = true)
    (hproper : Proper positions) : hasRoot (physical rootfs positions) = true := by
  induction positions generalizing rootfs with
  | nil => exact h
  | cons name rest ih =>
    show hasRoot (physical (push rootfs name) rest) = true
    refine ih ?_ fun n hm => hproper n (List.mem_cons_of_mem _ hm)
    have hname := not_absolute_of_proper name (hproper name List.mem_cons_self)
    unfold push
    rw [if_neg (by rw [hname]; decide)]
    cases rootfs with
    | nil => cases h
    | cons b bs =>
      split
      · exact h
      · exact h

theorem cleanAbsolute_logical {position : Position} (h : Proper position) :
    cleanAbsolute (logical position) = true := by
  have hcomponents : components (logical position) =
      components (lit "/") ++ position.map .normal :=
    components_physical (lit "/") position (by decide) h
  have hroot : components (lit "/") = [.rootDir] := by decide
  unfold cleanAbsolute isAbsolute
  rw [show hasRoot (logical position) = true from hasRoot_physical position (by decide) h,
    hcomponents, hroot, Bool.true_and, List.all_append, List.all_map, Bool.and_eq_true]
  exact ⟨by decide, List.all_eq_true.mpr fun _ _ => rfl⟩

/-- The check of inner paths, in terms of positions. -/
theorem validateTargetPaths_logical (positions : List Position)
    (h : ∀ position ∈ positions, Proper position) :
    validateTargetPaths [] (positions.map logical) = .ok () ↔ Unnested positions := by
  have hclean : ∀ t ∈ positions.map logical, cleanAbsolute t = true := by
    intro t ht
    obtain ⟨position, hm, rfl⟩ := List.mem_map.mp ht
    exact cleanAbsolute_logical (h position hm)
  have hnames : (positions.map logical).map names = positions := by
    rw [List.map_map]
    conv_rhs => rw [← List.map_id positions]
    exact List.map_congr_left fun position hm => names_logical position (h position hm)
  have hall := validateTargetPaths_eq_ok [] (positions.map logical) (by simp) hclean
    List.Pairwise.nil
  rwa [List.nil_append, hnames] at hall

/-- A relation of paths that says of positions the same. -/
theorem pairwise_physical (R : Bytes → Bytes → Prop) (S : Position → Position → Prop)
    (hRS : ∀ p q, Proper p → Proper q → (R (physical rootfs p) (physical rootfs q) ↔ S p q))
    (positions : List Position) (h : ∀ position ∈ positions, Proper position) :
    (positions.map (physical rootfs)).Pairwise R ↔ positions.Pairwise S := by
  rw [List.pairwise_map]
  constructor
  · exact List.Pairwise.imp_of_mem fun hp hq hr => (hRS _ _ (h _ hp) (h _ hq)).mp hr
  · exact List.Pairwise.imp_of_mem fun hp hq hs => (hRS _ _ (h _ hp) (h _ hq)).mpr hs

end Paths

/-! ### What is checked and what is mounted -/

/-- The mounts lie strictly under the rootfs and none covers another; only the one on
`/sys/fs/cgroup` may lie below the one on `/sys`. -/
def TargetsApart (host : Host) (tree : Tree) (rootfs : Bytes) (config : Config)
    (operations : List MountOperation) : Prop :=
  (∀ target ∈ operations.flatMap MountOperation.targets, StrictlyUnder rootfs target) ∧
  (operations.flatMap MountOperation.targets).Pairwise fun a b =>
    ¬Overlap a b ∨ (config.standardMounts = true ∧
      resolveTarget host tree rootfs (lit "/sys") = .ok a ∧
      resolveTarget host tree rootfs hostCgroupBind.target = .ok b ∧ StrictlyUnder a b)

instance (host : Host) (tree : Tree) (rootfs : Bytes) (config : Config)
    (operations : List MountOperation) :
    Decidable (TargetsApart host tree rootfs config operations) :=
  inferInstanceAs (Decidable (_ ∧ _))

/-- With standard mounts, `/sys/fs/cgroup` resolves to a place strictly below the one of
`/sys`, or the check passes with it among the targets. -/
def CgroupClear (host : Host) (tree : Tree) (rootfs : Bytes) (config : Config) : Prop :=
  config.standardMounts = true → ∃ sys cgroup,
    resolveTarget host tree rootfs (lit "/sys") = .ok sys ∧
    resolveTarget host tree rootfs hostCgroupBind.target = .ok cgroup ∧
    (StrictlyUnder sys cgroup ∨ ∃ targets inner,
      resolvedMountTargets host tree rootfs config = .ok targets ∧
      innerPath rootfs cgroup hostCgroupBind.target = .ok inner ∧
      validateTargetPaths [] (targets ++ [inner]) = .ok ())

/-- What came before the mounts when the operations are returned. -/
theorem prepareOperations_eq_ok {host : Host} {sha256 : Bytes → Bytes} {rootfs lower : Bytes}
    {overlayBase : Position} {config : Config} {start tree : Tree}
    {operations : List MountOperation}
    (h : prepareOperations host sha256 rootfs lower overlayBase config start =
      .ok operations tree) :
    ∃ overlayId before diskBinds mounts,
      prepareDiskBinds host sha256 rootfs lower overlayBase overlayId config.diskMounts before =
        .ok diskBinds tree ∧
      prepareWorkdir host tree rootfs config.workdir = .ok () ∧
      (∃ executable, config.command[0]? = some executable ∧
        prepareExecutable host tree rootfs executable = .ok ()) ∧
      validateResolvedMountTargets host tree rootfs config = .ok () ∧
      prepareMounts host tree rootfs config = .ok mounts ∧
      operations = mounts ++ diskBinds.map .bind := by
  obtain ⟨-, tree₁, -, h⟩ := (action_bind_eq_ok _ _ _ _ _).mp h
  obtain ⟨-, tree₂, -, h⟩ := (action_bind_eq_ok _ _ _ _ _).mp h
  obtain ⟨overlayId, before, -, h⟩ := (action_bind_eq_ok _ _ _ _ _).mp h
  obtain ⟨diskBinds, tree₃, hdisk, h⟩ := (action_bind_eq_ok _ _ _ _ _).mp h
  obtain ⟨_, tree₄, hworkdir, h⟩ := (action_bind_eq_ok _ _ _ _ _).mp h
  obtain ⟨executable, tree₅, hcommand, h⟩ := (action_bind_eq_ok _ _ _ _ _).mp h
  obtain ⟨_, tree₆, hexecutable, h⟩ := (action_bind_eq_ok _ _ _ _ _).mp h
  obtain ⟨_, tree₇, hvalidate, h⟩ := (action_bind_eq_ok _ _ _ _ _).mp h
  obtain ⟨mounts, tree₈, hmounts, h⟩ := (action_bind_eq_ok _ _ _ _ _).mp h
  rw [pure_run, EStateM.Result.ok.injEq] at h
  obtain ⟨rfl, rfl⟩ := h
  rw [adaptExcept_eq_ok] at hdisk hworkdir hexecutable hvalidate hmounts
  obtain ⟨hwork, rfl⟩ := (reading_eq_ok _ _ _ _).mp hworkdir
  obtain ⟨hfirst, rfl⟩ := (reading_eq_ok _ _ _ _).mp hcommand
  obtain ⟨hrun, rfl⟩ := (reading_eq_ok _ _ _ _).mp hexecutable
  obtain ⟨hvalid, rfl⟩ := (reading_eq_ok _ _ _ _).mp hvalidate
  obtain ⟨hmounted, rfl⟩ := (reading_eq_ok _ _ _ _).mp hmounts
  rw [expect_eq_ok] at hfirst
  exact ⟨overlayId, before, diskBinds, mounts, hdisk, hwork, ⟨executable, hfirst, hrun⟩, hvalid,
    hmounted, rfl⟩

/-- The positions of all mounts behind what was prepared, in the order of the mounts. -/
theorem operations_positions {host : Host} {sha256 : Bytes → Bytes} {rootfs lower : Bytes}
    {overlayBase : Position} {config : Config} {start tree : Tree}
    {operations : List MountOperation} (hroot : rootfs ≠ [])
    (h : prepareOperations host sha256 rootfs lower overlayBase config start =
      .ok operations tree) :
    ∃ (standard : List MountOperation) (checked : List Bytes) (disk binds tmpfs : List Position),
      prepareStandardMounts host tree rootfs config.standardMounts = .ok standard ∧
      resolvedStandardTargets host tree rootfs config.standardMounts = .ok checked ∧
      operations.flatMap MountOperation.targets = standard.flatMap MountOperation.targets ++
        (binds ++ tmpfs ++ disk).map (physical rootfs) ∧
      resolvedMountTargets host tree rootfs config =
        .ok (checked ++ (disk ++ binds ++ tmpfs).map logical) ∧
      validateTargetPaths [] (checked ++ (disk ++ binds ++ tmpfs).map logical) = .ok () ∧
      ∀ position ∈ disk ++ binds ++ tmpfs, Inside position := by
  obtain ⟨overlayId, before, diskBinds, mounts, hdisk, -, -, hvalidate, hmounts, rfl⟩ :=
    prepareOperations_eq_ok h
  obtain ⟨targets, htargets, hvalid⟩ := (bind_eq_ok _ _ _).mp hvalidate
  rw [mapError_eq_ok] at hvalid
  obtain ⟨checked, disk, binds, tmpfs, hchecked, hdiskAt, hbindsAt, htmpfsAt, hshape, hinside⟩ :=
    resolvedMountTargets_positions hroot htargets
  obtain ⟨standard, hstandard, hperformed⟩ := prepareMounts_positions hmounts hbindsAt htmpfsAt
  have hdiskTargets := prepareDiskBinds_positions sha256 lower overlayBase overlayId
    config.diskMounts hdisk hdiskAt
  subst hshape
  refine ⟨standard, checked, disk, binds, tmpfs, hstandard, hchecked, ?_, htargets, hvalid, hinside⟩
  rw [List.flatMap_append, hperformed,
    flatMap_targets_map MountOperation.bind (·.target) (fun _ => rfl), hdiskTargets,
    List.append_assoc, ← List.map_append]

theorem perm_disk (disk binds tmpfs : List Position) :
    (binds ++ tmpfs ++ disk).Perm (disk ++ binds ++ tmpfs) := by
  rw [List.append_assoc disk]
  exact List.perm_append_comm

/-! ### Exactly when no mount hides another one -/

theorem strictlyUnder_all {rootfs : Bytes} (hroot : rootfs ≠ []) {positions : List Position}
    (hproper : ∀ position ∈ positions, Proper position) :
    (∀ target ∈ positions.map (physical rootfs), StrictlyUnder rootfs target) ↔
      ∀ position ∈ positions, position ≠ [] := by
  rw [List.forall_mem_map]
  exact forall₂_congr fun position hm => strictlyUnder_root hroot (hproper position hm)

/-- The mounts of a run without standard mounts are the checked ones. -/
theorem apart_of_checked {host : Host} {tree : Tree} {rootfs : Bytes} {config : Config}
    {operations : List MountOperation} {disk binds tmpfs : List Position} (hroot : rootfs ≠ [])
    (hinside : ∀ position ∈ disk ++ binds ++ tmpfs, Inside position)
    (hunnested : Unnested (disk ++ binds ++ tmpfs))
    (hperformed : operations.flatMap MountOperation.targets =
      (binds ++ tmpfs ++ disk).map (physical rootfs)) :
    TargetsApart host tree rootfs config operations := by
  have hperm := perm_disk disk binds tmpfs
  have hall : ∀ position ∈ binds ++ tmpfs ++ disk, Inside position := fun position hm =>
    hinside position (hperm.mem_iff.mp hm)
  unfold TargetsApart
  rw [hperformed]
  constructor
  · exact (strictlyUnder_all hroot fun position hm => (hall position hm).2).mpr
      fun position hm => (hall position hm).1
  · have hapart : (binds ++ tmpfs ++ disk).Pairwise fun a b => ¬Nested a b :=
      hunnested.perm hperm.symm
    have hpaths := (pairwise_physical (fun a b => ¬Overlap a b) (fun p q => ¬Nested p q)
      (fun p q hp hq => not_congr (overlap_physical hroot hp hq)) _
      fun position hm => (hall position hm).2).mpr hapart
    exact hpaths.imp Or.inl

section Standard

variable {host : Host} {tree : Tree} {rootfs : Bytes} {config : Config}
  {positions : StandardPositions} {disk binds tmpfs : List Position}

/-- The checked positions of a run with standard mounts. -/
def checkedPositions (positions : StandardPositions) (disk binds tmpfs : List Position) :
    List Position :=
  positions.before ++ positions.sys :: (positions.after ++ (disk ++ binds ++ tmpfs))

/-- The mounted ones. -/
def mountedPositions (positions : StandardPositions) (disk binds tmpfs : List Position) :
    List Position :=
  positions.before ++ positions.sys :: positions.cgroup ::
    (positions.after ++ (binds ++ tmpfs ++ disk))

theorem perm_mounted (positions : StandardPositions) (disk binds tmpfs : List Position) :
    (mountedPositions positions disk binds tmpfs).Perm
      (checkedPositions positions disk binds tmpfs ++ [positions.cgroup]) := by
  unfold mountedPositions checkedPositions
  rw [List.append_assoc positions.before, List.cons_append]
  refine List.Perm.append_left _ (List.Perm.cons _ ?_)
  refine (List.Perm.cons _ (List.Perm.append_left _ (perm_disk disk binds tmpfs))).trans ?_
  exact (List.perm_append_singleton _ _).symm

theorem mem_mounted {position : Position}
    (hm : position ∈ mountedPositions positions disk binds tmpfs) :
    position ∈ checkedPositions positions disk binds tmpfs ∨ position = positions.cgroup := by
  rcases List.mem_append.mp ((perm_mounted positions disk binds tmpfs).mem_iff.mp hm) with hm | hm
  · exact Or.inl hm
  · exact Or.inr (List.mem_singleton.mp hm)

theorem cgroup_ne_nil (h : Unnested (mountedPositions positions disk binds tmpfs)) :
    positions.cgroup ≠ [] := by
  intro hnil
  have hsys := (List.pairwise_cons.mp (List.pairwise_append.mp h).2.1).1
    positions.cgroup List.mem_cons_self
  rw [hnil] at hsys
  exact hsys (Or.inr List.nil_prefix)

/-- What is mounted without the cgroup mount was checked, in another order. -/
theorem unnested_without_cgroup (h : Unnested (checkedPositions positions disk binds tmpfs)) :
    Unnested (positions.before ++ positions.sys ::
      (positions.after ++ (binds ++ tmpfs ++ disk))) := by
  refine h.perm (List.Perm.append_left _ (List.Perm.cons _ ?_))
  exact List.Perm.append_left _ (perm_disk disk binds tmpfs).symm

/-- The exception, in terms of positions. -/
theorem exception_physical (hroot : rootfs ≠ []) (hpositions : positions.Resolved host tree rootfs)
    {p q : Position} (hp : Proper p) (hq : Proper q) :
    (resolveTarget host tree rootfs (lit "/sys") = .ok (physical rootfs p) ∧
        resolveTarget host tree rootfs hostCgroupBind.target = .ok (physical rootfs q) ∧
        StrictlyUnder (physical rootfs p) (physical rootfs q)) ↔
      p = positions.sys ∧ q = positions.cgroup ∧ positions.sys <+: positions.cgroup ∧
        positions.sys ≠ positions.cgroup := by
  have hsysProper := resolvePosition_proper hpositions.sys
  have hcgroupProper := resolvePosition_proper hpositions.cgroup
  rw [strictlyUnder_physical hroot hp hq, resolveTarget_eq_ok, resolveTarget_eq_ok]
  constructor
  · rintro ⟨⟨sys, hsys, hsysPath⟩, ⟨cgroup, hcgroup, hcgroupPath⟩, hunder⟩
    obtain rfl := Except.ok.inj (hpositions.sys.symm.trans hsys)
    obtain rfl := Except.ok.inj (hpositions.cgroup.symm.trans hcgroup)
    obtain rfl := physical_injective hroot hsysProper hp hsysPath
    obtain rfl := physical_injective hroot hcgroupProper hq hcgroupPath
    exact ⟨rfl, rfl, hunder⟩
  · rintro ⟨rfl, rfl, hunder⟩
    exact ⟨⟨_, hpositions.sys, rfl⟩, ⟨_, hpositions.cgroup, rfl⟩, hunder⟩

theorem targetsApart_iff_positions (hroot : rootfs ≠ [])
    (hpositions : positions.Resolved host tree rootfs) (hstandard : config.standardMounts = true)
    (hinside : ∀ position ∈ checkedPositions positions disk binds tmpfs, Inside position)
    (hunnested : Unnested (checkedPositions positions disk binds tmpfs))
    {operations : List MountOperation}
    (hperformed : operations.flatMap MountOperation.targets =
      (mountedPositions positions disk binds tmpfs).map (physical rootfs)) :
    TargetsApart host tree rootfs config operations ↔
      (positions.sys <+: positions.cgroup ∧ positions.sys ≠ positions.cgroup) ∨
        Unnested (mountedPositions positions disk binds tmpfs) := by
  have hcgroupProper := resolvePosition_proper hpositions.cgroup
  have hproper : ∀ position ∈ mountedPositions positions disk binds tmpfs, Proper position := by
    intro position hm
    rcases mem_mounted hm with hm | rfl
    · exact (hinside position hm).2
    · exact hcgroupProper
  have hpairwise := (pairwise_physical
    (fun a b => ¬Overlap a b ∨ (config.standardMounts = true ∧
      resolveTarget host tree rootfs (lit "/sys") = .ok a ∧
      resolveTarget host tree rootfs hostCgroupBind.target = .ok b ∧ StrictlyUnder a b))
    (fun p q => ¬Nested p q ∨ (p = positions.sys ∧ q = positions.cgroup ∧
      positions.sys <+: positions.cgroup ∧ positions.sys ≠ positions.cgroup))
    (fun p q hp hq => or_congr (not_congr (overlap_physical hroot hp hq))
      ((and_iff_right hstandard).trans (exception_physical hroot hpositions hp hq))) _ hproper).trans
    (unnested_except_iff positions.before (positions.after ++ (binds ++ tmpfs ++ disk))
      positions.sys positions.cgroup (unnested_without_cgroup hunnested))
  have hsysInside : Inside positions.sys := by
    refine hinside _ ?_
    unfold checkedPositions
    simp
  unfold TargetsApart
  rw [hperformed, strictlyUnder_all hroot hproper]
  constructor
  · rintro ⟨-, hapart⟩
    exact hpairwise.mp hapart
  · intro hclear
    refine ⟨fun position hm => ?_, hpairwise.mpr hclear⟩
    rcases mem_mounted hm with hm | rfl
    · exact (hinside position hm).1
    -- the rootfs itself would lie neither below the sys target nor apart from it
    · intro hnil
      rcases hclear with ⟨hunder, -⟩ | hfree
      · rw [hnil] at hunder
        exact hsysInside.1 (List.prefix_nil.mp hunder)
      · exact cgroup_ne_nil hfree hnil

theorem cgroupClear_iff_positions (hroot : rootfs ≠ [])
    (hpositions : positions.Resolved host tree rootfs) (hstandard : config.standardMounts = true)
    (hinside : ∀ position ∈ checkedPositions positions disk binds tmpfs, Inside position)
    (hchecked : resolvedMountTargets host tree rootfs config =
      .ok ((checkedPositions positions disk binds tmpfs).map logical)) :
    CgroupClear host tree rootfs config ↔
      (positions.sys <+: positions.cgroup ∧ positions.sys ≠ positions.cgroup) ∨
        Unnested (mountedPositions positions disk binds tmpfs) := by
  have hsysProper := resolvePosition_proper hpositions.sys
  have hcgroupProper := resolvePosition_proper hpositions.cgroup
  have hsys : resolveTarget host tree rootfs (lit "/sys") = .ok (physical rootfs positions.sys) :=
    (resolveTarget_eq_ok _ _ _ _ _).mpr ⟨_, hpositions.sys, rfl⟩
  have hcgroup : resolveTarget host tree rootfs hostCgroupBind.target =
      .ok (physical rootfs positions.cgroup) :=
    (resolveTarget_eq_ok _ _ _ _ _).mpr ⟨_, hpositions.cgroup, rfl⟩
  have hperm := perm_mounted positions disk binds tmpfs
  have hvalid : validateTargetPaths [] ((checkedPositions positions disk binds tmpfs).map logical ++
      [logical positions.cgroup]) = .ok () ↔
        Unnested (mountedPositions positions disk binds tmpfs) := by
    rw [← List.map_singleton, ← List.map_append, validateTargetPaths_logical]
    · exact ⟨fun h => h.perm hperm.symm, fun h => h.perm hperm⟩
    · intro position hm
      rcases List.mem_append.mp hm with hm | hm
      · exact (hinside position hm).2
      · rw [List.mem_singleton.mp hm]
        exact hcgroupProper
  have hunder := strictlyUnder_physical hroot hsysProper hcgroupProper
  constructor
  · intro hclear
    obtain ⟨sys, cgroup, hsys', hcgroup', hcase⟩ := hclear hstandard
    obtain rfl := Except.ok.inj (hsys.symm.trans hsys')
    obtain rfl := Except.ok.inj (hcgroup.symm.trans hcgroup')
    rcases hcase with hcase | ⟨targets, inner, htargets, hinner, hpass⟩
    · exact Or.inl (hunder.mp hcase)
    · obtain rfl := Except.ok.inj (hchecked.symm.trans htargets)
      obtain ⟨-, rfl⟩ := (innerPath_physical hroot hcgroupProper).mp hinner
      exact Or.inr (hvalid.mp hpass)
  · rintro (hcase | hfree) -
    · exact ⟨_, _, hsys, hcgroup, Or.inl (hunder.mpr hcase)⟩
    · have hinner : innerPath rootfs (physical rootfs positions.cgroup) hostCgroupBind.target =
          .ok (logical positions.cgroup) :=
        (innerPath_physical hroot hcgroupProper).mpr ⟨cgroup_ne_nil hfree, rfl⟩
      exact ⟨_, _, hsys, hcgroup, Or.inr ⟨_, _, hchecked, hinner, hvalid.mpr hfree⟩⟩

end Standard

/-- All mounts that a run is about to make lie strictly under the merged rootfs and none
covers another, the one on `/sys/fs/cgroup` below the one on `/sys` excepted, exactly when
the cgroup target is clear of the rest. -/
theorem targetsApart_iff (host : Host) (sha256 : Bytes → Bytes) (merged : Position)
    (lower : Bytes) (overlayBase : Position) (config : Config) (start tree : Tree)
    (operations : List MountOperation)
    (h : prepareOperations host sha256 (absolute merged) lower overlayBase config start =
      .ok operations tree) :
    TargetsApart host tree (absolute merged) config operations ↔
      CgroupClear host tree (absolute merged) config := by
  have hroot : absolute merged ≠ [] := by
    intro he
    have hslash := hasRoot_absolute merged
    rw [he] at hslash
    cases hslash
  obtain ⟨standard, checked, disk, binds, tmpfs, hstandard, hchecked, hperformed, htargets, hvalid,
    hinside⟩ := operations_positions hroot h
  cases hcase : config.standardMounts with
  | false =>
    rw [hcase] at hstandard hchecked
    obtain rfl := Except.ok.inj hstandard
    obtain rfl := Except.ok.inj hchecked
    have hunnested := (validateTargetPaths_logical _ fun position hm =>
      (hinside position hm).2).mp hvalid
    refine iff_of_true (apart_of_checked hroot hinside hunnested hperformed) ?_
    intro hon
    rw [hcase] at hon
    cases hon
  | true =>
    rw [hcase] at hstandard hchecked
    obtain ⟨positions, hpositions, hstandardTargets⟩ := prepareStandardMounts_positions hstandard
    obtain ⟨rfl, hstandardInside⟩ :=
      resolvedStandardTargets_positions hroot hpositions hchecked
    have hall : ∀ position ∈ checkedPositions positions disk binds tmpfs, Inside position := by
      intro position hm
      unfold checkedPositions at hm
      rw [← List.cons_append, ← List.append_assoc] at hm
      rcases List.mem_append.mp hm with hm | hm
      · exact hstandardInside position hm
      · exact hinside position hm
    have hlist : (positions.before ++ positions.sys :: positions.after).map logical ++
        (disk ++ binds ++ tmpfs).map logical =
          (checkedPositions positions disk binds tmpfs).map logical := by
      unfold checkedPositions
      simp only [List.map_append, List.map_cons, List.append_assoc, List.cons_append]
    rw [hlist] at htargets hvalid
    have hunnested := (validateTargetPaths_logical _ fun position hm =>
      (hall position hm).2).mp hvalid
    have hmounted : operations.flatMap MountOperation.targets =
        (mountedPositions positions disk binds tmpfs).map (physical (absolute merged)) := by
      rw [hperformed, hstandardTargets, ← List.map_append]
      unfold mountedPositions
      simp only [List.append_assoc, List.cons_append]
    exact (targetsApart_iff_positions hroot hpositions hcase hall hunnested hmounted).trans
      (cgroupClear_iff_positions hroot hpositions hcase hall htargets).symm

/-! ### An image with a link at `/sys/fs` -/

/-- A host on which nothing fails; the DNS files are the only regular files there. -/
def plainHost : Host where
  fault _ _ := false
  canonicalize _ path := some path
  metadata _ path :=
    some (if path = lit "/etc/resolv.conf" ∨ path = lit "/etc/hosts" then .regular [] else .directory)
  occupied _ := false
  umask := 0o22

def imageEntry (parent : List Bytes) (name : String) (kind : FileKind) :
    List Bytes × Bytes × Node Attributes :=
  (parent, lit name, ⟨kind, ⟨0, 0, 0o755⟩⟩)

/-- The directories an image has for the standard mounts, a command, and what is in `/sys`. -/
def image (sys : List (List Bytes × Bytes × Node Attributes)) : Tree :=
  FileTree.ofEntries ⟨0, 0, 0o755⟩ ([imageEntry [] "proc" .directory, imageEntry [] "dev" .directory,
    imageEntry [] "sys" .directory, imageEntry [] "tmp" .directory, imageEntry [] "run" .directory,
    imageEntry [] "etc" .directory, imageEntry [] "data" .directory,
    imageEntry [] "app" (.regular [])] ++ sys)

def linkedImage : Tree := image [imageEntry [lit "sys"] "fs" (.symlink (lit "/data"))]

def dataArguments : List Bytes :=
  [lit "--rootfs", lit "/image", lit "--standard-mounts", lit "--bind", lit "/host", lit "/data",
    lit "--", lit "/app"]

def dataConfig : Config where
  rootfs := lit "/image"
  overlayDevice := none
  overlayId := none
  workdir := lit "/"
  user := none
  standardMounts := true
  diskMounts := []
  binds := [⟨lit "/host", lit "/data", false⟩]
  tmpfs := []
  command := [lit "/app"]

/-- What the run with a bind on `/data` prepares on an image. -/
def prepareData (image : Tree) : EStateM.Result (Failure RuntimeError) Tree (List MountOperation) :=
  prepareOperations plainHost id (absolute [lit "merged"]) (lit "/image") [lit "overlay"] dataConfig
    image

/-- The operations are returned, and this holds of them and the rootfs. -/
def Prepared (P : Tree → List MountOperation → Prop) :
    EStateM.Result (Failure RuntimeError) Tree (List MountOperation) → Prop
  | .ok operations tree => P tree operations
  | .error _ _ => False

instance (P : Tree → List MountOperation → Prop) [∀ tree operations, Decidable (P tree operations)] :
    (result : EStateM.Result (Failure RuntimeError) Tree (List MountOperation)) →
      Decidable (Prepared P result)
  | .ok operations tree => inferInstanceAs (Decidable (P tree operations))
  | .error _ _ => inferInstanceAs (Decidable False)

theorem exists_of_prepared {P : Tree → List MountOperation → Prop}
    {result : EStateM.Result (Failure RuntimeError) Tree (List MountOperation)}
    (h : Prepared P result) : ∃ operations tree, result = .ok operations tree ∧ P tree operations := by
  cases result with
  | ok operations tree => exact ⟨operations, tree, rfl, h⟩
  | error e tree => exact absurd h id

/-- In the image with the link, the cgroup mount lies below the bind on `/data`. -/
theorem linkedImage_hides : parseArgs dataArguments = .ok dataConfig ∧
    ∃ operations tree, prepareData linkedImage = .ok operations tree ∧
      ¬TargetsApart plainHost tree (absolute [lit "merged"]) dataConfig operations := by
  refine ⟨by decide +kernel, exists_of_prepared ?_⟩
  decide +kernel

theorem targetsApart_image : ∃ operations tree, prepareData (image []) = .ok operations tree ∧
    TargetsApart plainHost tree (absolute [lit "merged"]) dataConfig operations ∧
    CgroupClear plainHost tree (absolute [lit "merged"]) dataConfig := by
  have hprepared : Prepared (fun tree operations => TargetsApart plainHost tree
      (absolute [lit "merged"]) dataConfig operations) (prepareData (image [])) := by
    decide +kernel
  obtain ⟨operations, tree, hresult, hapart⟩ := exists_of_prepared hprepared
  have hclear := (targetsApart_iff plainHost id [lit "merged"] (lit "/image") [lit "overlay"]
    dataConfig (image []) tree operations hresult).mp hapart
  exact ⟨operations, tree, hresult, hapart, hclear⟩

end Sandcamp.Sandrun
