import Sandcamp.Sandrun.Accepted
import Sandcamp.Sandrun.Mounts

/-!
# Where the mounts end up

The targets are checked in one order by `validate_resolved_mount_targets` and mounted
in another, from paths that were resolved by other functions, some of them in an
earlier tree. Both lists come down to the same positions below the rootfs, the cgroup
mount apart: it is mounted and not checked.
-/

namespace Sandcamp.Sandrun
open Foundations Foundations.UnixPath

/-! ### Preparing only adds to the rootfs -/

abbrev Grows {α : Type} (action : Preparation α) : Prop := ChangesBy FileTree.Extends action

theorem grows_bind {α β : Type} (x : Preparation α) (f : α → Preparation β) (hx : Grows x)
    (hf : ∀ a, Grows (f a)) : Grows (x >>= f) :=
  changesBy_bind (fun _ _ _ h h' => h.trans h') x f hx hf

theorem grows_reading {α : Type} (check : Tree → Except RuntimeError α) : Grows (reading check) :=
  changesBy_reading FileTree.Extends.refl check

theorem grows_pure {α : Type} (a : α) : Grows (pure a : Preparation α) :=
  changesBy_pure FileTree.Extends.refl a

theorem grows_throw {α : Type} (e : RuntimeError) : Grows (throw e : Preparation α) :=
  changesBy_throw FileTree.Extends.refl e

theorem grows_createEntry (host : Host) (rootfs : Bytes) (parent : Position) (name : Bytes)
    (kind : FileKind) (mode : ℕ) (createOperation chmodOperation : String) :
    Grows (createEntry host rootfs parent name kind mode createOperation chmodOperation) := by
  intro tree
  show tree.Extends (after (EStateM.bind _ _ tree))
  unfold EStateM.bind makeEntry
  by_cases hfault : host.fault (lit createOperation) (physical rootfs (parent ++ [name])) = true
  · rw [if_pos hfault]
    exact FileTree.Extends.refl tree
  · rw [if_neg hfault]
    by_cases hvacant : tree.Vacant parent name
    · rw [FileTree.create, dif_pos hvacant]
      show tree.Extends (after (EStateM.bind _ _ _))
      unfold EStateM.bind reading
      cases attempt host chmodOperation (physical rootfs (parent ++ [name])) with
      | error e => exact FileTree.extends_add tree parent name _ hvacant
      | ok u =>
        exact FileTree.extends_setAttributes_add tree parent name _ hvacant
          fun attributes => { attributes with mode := mode }
    · rw [FileTree.create, dif_neg hvacant]
      cases hexists : (tree.lookup (parent ++ [name])).isSome with
      | true => exact FileTree.Extends.refl tree
      | false => exact FileTree.Extends.refl tree

theorem grows_lookUp (host : Host) (rootfs : Bytes) (position : Position) (operation : String) :
    Grows (lookUp host rootfs position operation) :=
  grows_bind _ _ (grows_reading _) fun _ => grows_reading _

theorem grows_enterDirectory (host : Host) (rootfs path : Bytes) (resolved : Position)
    (name : Bytes) : Grows (enterDirectory host rootfs path resolved name) := by
  refine grows_bind _ _ (grows_lookUp host rootfs _ _) fun found => ?_
  cases found with
  | none =>
    refine grows_bind _ _ (grows_createEntry host rootfs _ _ _ _ _ _) fun _ => ?_
    refine grows_bind _ _ (grows_reading _) fun _ => ?_
    exact grows_bind _ _ (grows_reading _) fun _ => grows_pure _
  | some kind =>
    cases kind with
    | directory => exact grows_pure _
    | regular contents => exact grows_throw _
    | other => exact grows_throw _
    | symlink text =>
      refine grows_bind _ _ (grows_reading _) fun _ => ?_
      refine grows_bind _ _ (grows_reading _) fun _ => ?_
      exact grows_bind _ _ (grows_reading _) fun _ => grows_pure _

theorem grows_ensureBindTargetDirectory (host : Host) (rootfs target path : Bytes)
    (resolved : Position) (above : List Component) :
    Grows (ensureBindTargetDirectory host rootfs target path resolved above) := by
  induction above generalizing path resolved with
  | nil => exact grows_pure _
  | cons component rest ih =>
    cases component with
    | rootDir => exact ih path resolved
    | normal name =>
      exact grows_bind _ _ (grows_enterDirectory host rootfs _ resolved name)
        fun resolved => ih (push path name) resolved
    | curDir => exact grows_throw _
    | parentDir => exact grows_throw _

theorem grows_createBindTarget (host : Host) (rootfs target : Bytes) (parent : Position)
    (name : Bytes) (source : FileKind) :
    Grows (createBindTarget host rootfs target parent name source) := by
  cases source with
  | directory => exact grows_createEntry host rootfs parent name _ _ _ _
  | regular contents => exact grows_createEntry host rootfs parent name _ _ _ _
  | symlink text => exact grows_throw _
  | other => exact grows_throw _

theorem grows_ensureBindTarget (host : Host) (rootfs : Bytes) (bind : Bind) :
    Grows (ensureBindTarget host rootfs bind) := by
  refine grows_bind _ _ (grows_reading _) fun source => ?_
  refine grows_bind _ _ (grows_reading _) fun above => ?_
  refine grows_bind _ _ (grows_ensureBindTargetDirectory host rootfs _ _ _ _) fun directory => ?_
  refine grows_bind _ _ (grows_reading _) fun name => ?_
  refine grows_bind _ _ (grows_lookUp host rootfs _ _) fun found => ?_
  cases found with
  | none => exact grows_createBindTarget host rootfs _ _ _ _
  | some kind => exact grows_pure _

theorem grows_prepareDiskBind (host : Host) (sha256 : Bytes → Bytes) (rootfs lower : Bytes)
    (overlayBase : Position) (overlayId target : Bytes) :
    Grows (prepareDiskBind host sha256 rootfs lower overlayBase overlayId target) := by
  refine grows_bind _ _ (grows_reading _) fun _ => ?_
  exact grows_bind _ _ (grows_ensureBindTarget host rootfs _) fun _ => grows_reading _

/-! ### The positions behind the targets -/

section Positions

variable {host : Host} {tree : Tree} {rootfs : Bytes}

theorem resolveDirectory_eq_ok {target path : Bytes}
    (h : resolveDirectory host tree rootfs target = .ok path) :
    ∃ position, resolvePosition host tree rootfs target = .ok position ∧
      path = physical rootfs position := by
  obtain ⟨position, hposition, hrest⟩ := (bind_eq_ok _ _ _).mp h
  obtain ⟨kind, -, hrest⟩ := (bind_eq_ok _ _ _).mp hrest
  obtain ⟨-, -, hrest⟩ := (bind_eq_ok _ _ _).mp hrest
  exact ⟨position, hposition, (Except.ok.inj hrest).symm⟩

theorem prepareBindWithRecursion_eq_ok {bind : Bind} {recursive : Bool} {mount : PreparedBind}
    (h : prepareBindWithRecursion host tree rootfs bind recursive = .ok mount) :
    ∃ position, resolvePosition host tree rootfs bind.target = .ok position ∧
      mount.target = physical rootfs position := by
  obtain ⟨source, -, hrest⟩ := (bind_eq_ok _ _ _).mp h
  obtain ⟨position, hposition, hrest⟩ := (bind_eq_ok _ _ _).mp hrest
  obtain ⟨sourceKind, -, hrest⟩ := (bind_eq_ok _ _ _).mp hrest
  obtain ⟨targetKind, -, hrest⟩ := (bind_eq_ok _ _ _).mp hrest
  obtain ⟨-, -, hrest⟩ := (bind_eq_ok _ _ _).mp hrest
  obtain rfl := Except.ok.inj hrest
  exact ⟨position, hposition, rfl⟩

/-- The disk binds were resolved while the tree was still growing; they are where the
final tree has them. -/
theorem prepareDiskBinds_positions (sha256 : Bytes → Bytes) (lower : Bytes)
    (overlayBase : Position) (overlayId : Bytes) (targets : List Bytes)
    {mounts : List PreparedBind} {start : Tree} {positions : List Position}
    (h : prepareDiskBinds host sha256 rootfs lower overlayBase overlayId targets start =
      .ok mounts tree)
    (hpositions : targets.mapM (resolvePosition host tree rootfs) = .ok positions) :
    mounts.map (·.target) = positions.map (physical rootfs) := by
  have hall : List.Forall₂ (fun target mount => ∃ tree' : Tree, tree'.Extends tree ∧
      ∃ position, resolvePosition host tree' rootfs target = .ok position ∧
        mount.target = physical rootfs position) targets mounts := by
    unfold prepareDiskBinds at h
    split at h
    · rename_i hnil
      subst hnil
      cases h
      exact List.Forall₂.nil
    · obtain ⟨-, next, -, hrun⟩ := (action_bind_eq_ok _ _ _ _ _).mp h
      refine (mapM_action_spec FileTree.Extends.refl (fun _ _ _ h h' => h.trans h') _
        (fun target => grows_prepareDiskBind host sha256 rootfs lower overlayBase overlayId target)
        (fun tree target mount => ∃ tree' : Tree, tree'.Extends tree ∧
          ∃ position, resolvePosition host tree' rootfs target = .ok position ∧
            mount.target = physical rootfs position) ?_ ?_ targets hrun).2
      · intro target s mount t hround
        obtain ⟨-, s₁, -, hround⟩ := (action_bind_eq_ok _ _ _ _ _).mp hround
        obtain ⟨-, s₂, -, hround⟩ := (action_bind_eq_ok _ _ _ _ _).mp hround
        obtain ⟨hprepared, rfl⟩ := (reading_eq_ok _ _ _ _).mp hround
        exact ⟨_, FileTree.Extends.refl _, prepareBindWithRecursion_eq_ok hprepared⟩
      · rintro s t target mount hst ⟨tree', hextends, hposition⟩
        exact ⟨tree', hextends.trans hst, hposition⟩
  have hfinal := (mapM_eq_ok _ _ _).mp hpositions
  clear h hpositions
  induction hall generalizing positions with
  | nil =>
    cases hfinal
    rfl
  | cons hone _ ih =>
    cases hfinal with
    | cons hposition hrest =>
      obtain ⟨tree', hextends, position, hearlier, htarget⟩ := hone
      obtain rfl := resolvePosition_extends hextends hearlier hposition
      rw [List.map_cons, List.map_cons, htarget, ih hrest]

/-- A place strictly below the rootfs. -/
def Inside (position : Position) : Prop := position ≠ [] ∧ Proper position

theorem resolveInnerTarget_inside (hroot : rootfs ≠ []) {target inner : Bytes}
    (h : resolveInnerTarget host tree rootfs target = .ok inner) :
    ∃ position, resolvePosition host tree rootfs target = .ok position ∧
      inner = logical position ∧ Inside position := by
  obtain ⟨position, hposition, hne, hinner⟩ :=
    (resolveInnerTarget_eq_ok host tree rootfs target inner hroot).mp h
  exact ⟨position, hposition, hinner, hne, resolvePosition_proper hposition⟩

/-- The positions that are checked, the standard ones apart. -/
theorem resolvedMountTargets_positions (hroot : rootfs ≠ []) {config : Config}
    {targets : List Bytes} (h : resolvedMountTargets host tree rootfs config = .ok targets) :
    ∃ (standard : List Bytes) (disk binds tmpfs : List Position),
      resolvedStandardTargets host tree rootfs config.standardMounts = .ok standard ∧
      config.diskMounts.mapM (resolvePosition host tree rootfs) = .ok disk ∧
      config.binds.mapM (fun bind => resolvePosition host tree rootfs bind.target) = .ok binds ∧
      config.tmpfs.mapM (resolvePosition host tree rootfs) = .ok tmpfs ∧
      targets = standard ++ (disk ++ binds ++ tmpfs).map logical ∧
      ∀ position ∈ disk ++ binds ++ tmpfs, Inside position := by
  obtain ⟨standard, hstandard, hrest⟩ := (bind_eq_ok _ _ _).mp h
  obtain ⟨diskTargets, hdisk, hrest⟩ := (bind_eq_ok _ _ _).mp hrest
  obtain ⟨bindTargets, hbinds, hrest⟩ := (bind_eq_ok _ _ _).mp hrest
  obtain ⟨tmpfsTargets, htmpfs, hrest⟩ := (bind_eq_ok _ _ _).mp hrest
  obtain rfl := Except.ok.inj hrest
  obtain ⟨disk, hdisk, hdiskMap, hdiskIn⟩ := mapM_factor _ (resolvePosition host tree rootfs)
    id logical Inside (fun _ _ => resolveInnerTarget_inside hroot) _ hdisk
  obtain ⟨binds, hbinds, hbindMap, hbindIn⟩ := mapM_factor _
    (fun bind : Bind => resolvePosition host tree rootfs bind.target) id logical Inside
    (fun _ _ => resolveInnerTarget_inside hroot) _ hbinds
  obtain ⟨tmpfs, htmpfs, htmpfsMap, htmpfsIn⟩ := mapM_factor _
    (resolvePosition host tree rootfs) id logical Inside
    (fun _ _ => resolveInnerTarget_inside hroot) _ htmpfs
  rw [List.map_id] at hdiskMap hbindMap htmpfsMap
  refine ⟨standard, disk, binds, tmpfs, hstandard, hdisk, hbinds, htmpfs, ?_, ?_⟩
  · rw [hdiskMap, hbindMap, htmpfsMap]
    simp only [List.map_append, List.append_assoc]
  · intro position hm
    rcases List.mem_append.mp hm with hm | hm
    · rcases List.mem_append.mp hm with hm | hm
      · exact hdiskIn position hm
      · exact hbindIn position hm
    · exact htmpfsIn position hm

theorem flatMap_targets_map {α : Type} (operation : α → MountOperation) (target : α → Bytes)
    (h : ∀ a, (operation a).targets = [target a]) (xs : List α) :
    (xs.map operation).flatMap MountOperation.targets = xs.map target := by
  induction xs with
  | nil => rfl
  | cons x xs ih =>
    rw [List.map_cons, List.flatMap_cons, ih, h]
    rfl

/-- The positions of the mounts that are prepared, the standard ones apart. -/
theorem prepareMounts_positions {config : Config} {operations : List MountOperation}
    {binds tmpfs : List Position} (h : prepareMounts host tree rootfs config = .ok operations)
    (hbinds : config.binds.mapM (fun bind => resolvePosition host tree rootfs bind.target) =
      .ok binds)
    (htmpfs : config.tmpfs.mapM (resolvePosition host tree rootfs) = .ok tmpfs) :
    ∃ standard, prepareStandardMounts host tree rootfs config.standardMounts = .ok standard ∧
      operations.flatMap MountOperation.targets =
        standard.flatMap MountOperation.targets ++ (binds ++ tmpfs).map (physical rootfs) := by
  obtain ⟨standard, hstandard, hrest⟩ := (bind_eq_ok _ _ _).mp h
  obtain ⟨mounts, hmounts, hrest⟩ := (bind_eq_ok _ _ _).mp hrest
  obtain ⟨paths, hpaths, hrest⟩ := (bind_eq_ok _ _ _).mp hrest
  obtain rfl := Except.ok.inj hrest
  obtain ⟨binds', hbinds', hbindMap, -⟩ := mapM_factor _
    (fun bind : Bind => resolvePosition host tree rootfs bind.target)
    (fun mount : PreparedBind => mount.target) (physical rootfs) (fun _ => True)
    (fun bind mount hmount => by
      obtain ⟨position, hposition, htarget⟩ := prepareBindWithRecursion_eq_ok hmount
      exact ⟨position, hposition, htarget, trivial⟩) _ hmounts
  obtain ⟨tmpfs', htmpfs', htmpfsMap, -⟩ := mapM_factor _
    (resolvePosition host tree rootfs) id (physical rootfs) (fun _ => True)
    (fun target path hpath => by
      obtain ⟨position, hposition, hphysical⟩ := resolveDirectory_eq_ok hpath
      exact ⟨position, hposition, hphysical, trivial⟩) _ hpaths
  obtain rfl := Except.ok.inj (hbinds'.symm.trans hbinds)
  obtain rfl := Except.ok.inj (htmpfs'.symm.trans htmpfs)
  rw [List.map_id] at htmpfsMap
  refine ⟨standard, hstandard, ?_⟩
  rw [List.flatMap_append, List.flatMap_append,
    flatMap_targets_map MountOperation.bind (·.target) (fun _ => rfl),
    flatMap_targets_map (fun target => MountOperation.tmpfs target 0o755) id (fun _ => rfl),
    hbindMap, List.map_id, htmpfsMap, List.map_append, List.append_assoc]

/-! ### The standard mounts -/

/-- Where the standard mounts are in the rootfs. -/
structure StandardPositions where
  proc : Position
  dev : Position
  sys : Position
  cgroup : Position
  tmp : Position
  run : Position
  etc : Position

/-- All of them are resolved, each in its place. -/
structure StandardPositions.Resolved (host : Host) (tree : Tree) (rootfs : Bytes)
    (positions : StandardPositions) : Prop where
  proc : resolvePosition host tree rootfs (lit "/proc") = .ok positions.proc
  dev : resolvePosition host tree rootfs (lit "/dev") = .ok positions.dev
  sys : resolvePosition host tree rootfs (lit "/sys") = .ok positions.sys
  cgroup : resolvePosition host tree rootfs (lit "/sys/fs/cgroup") = .ok positions.cgroup
  tmp : resolvePosition host tree rootfs (lit "/tmp") = .ok positions.tmp
  run : resolvePosition host tree rootfs (lit "/run") = .ok positions.run
  etc : resolvePosition host tree rootfs (lit "/etc") = .ok positions.etc

/-- The mounts before and after the one on `/sys`, as they are made. -/
def StandardPositions.before (positions : StandardPositions) : List Position :=
  [positions.proc, positions.dev]

def StandardPositions.after (positions : StandardPositions) : List Position :=
  [positions.tmp, positions.run, positions.etc ++ [lit "resolv.conf"],
    positions.etc ++ [lit "hosts"]]

theorem prepareStandardMounts_positions {operations : List MountOperation}
    (h : prepareStandardMounts host tree rootfs true = .ok operations) :
    ∃ positions : StandardPositions, positions.Resolved host tree rootfs ∧
      operations.flatMap MountOperation.targets =
        (positions.before ++ positions.sys :: positions.cgroup :: positions.after).map
          (physical rootfs) := by
  obtain ⟨_, hproc, hrest⟩ := (bind_eq_ok _ _ _).mp h
  obtain ⟨dev, hdev, hrest⟩ := (bind_eq_ok _ _ _).mp hrest
  obtain ⟨sys, hsys, hrest⟩ := (bind_eq_ok _ _ _).mp hrest
  obtain ⟨cgroup, hcgroup, hrest⟩ := (bind_eq_ok _ _ _).mp hrest
  obtain ⟨_, htmp, hrest⟩ := (bind_eq_ok _ _ _).mp hrest
  obtain ⟨_, hrun, hrest⟩ := (bind_eq_ok _ _ _).mp hrest
  obtain ⟨_, hetc, hrest⟩ := (bind_eq_ok _ _ _).mp hrest
  obtain ⟨resolvConf, -, hrest⟩ := (bind_eq_ok _ _ _).mp hrest
  obtain ⟨hosts, -, hrest⟩ := (bind_eq_ok _ _ _).mp hrest
  obtain rfl := Except.ok.inj hrest
  obtain ⟨procAt, hprocAt, rfl⟩ := resolveDirectory_eq_ok hproc
  obtain ⟨devAt, hdevAt, hdevTarget⟩ := prepareBindWithRecursion_eq_ok hdev
  obtain ⟨sysAt, hsysAt, hsysTarget⟩ := prepareBindWithRecursion_eq_ok hsys
  obtain ⟨cgroupAt, hcgroupAt, hcgroupTarget⟩ := prepareBindWithRecursion_eq_ok hcgroup
  obtain ⟨tmpAt, htmpAt, rfl⟩ := resolveDirectory_eq_ok htmp
  obtain ⟨runAt, hrunAt, rfl⟩ := resolveDirectory_eq_ok hrun
  obtain ⟨etcAt, hetcAt, rfl⟩ := resolveDirectory_eq_ok hetc
  refine ⟨⟨procAt, devAt, sysAt, cgroupAt, tmpAt, runAt, etcAt⟩,
    ⟨hprocAt, hdevAt, hsysAt, hcgroupAt, htmpAt, hrunAt, hetcAt⟩, ?_⟩
  simp only [List.flatMap_cons, List.flatMap_nil, MountOperation.targets, hdevTarget, hsysTarget,
    hcgroupTarget, physical_snoc]
  rfl

theorem resolvedStandardTargets_positions (hroot : rootfs ≠ []) {targets : List Bytes}
    {positions : StandardPositions} (hpositions : positions.Resolved host tree rootfs)
    (h : resolvedStandardTargets host tree rootfs true = .ok targets) :
    targets = (positions.before ++ positions.sys :: positions.after).map logical ∧
      ∀ position ∈ positions.before ++ positions.sys :: positions.after, Inside position := by
  obtain ⟨inner, hinner, hrest⟩ := (bind_eq_ok _ _ _).mp h
  obtain ⟨etc, hetc, hrest⟩ := (bind_eq_ok _ _ _).mp hrest
  obtain ⟨-, -, hrest⟩ := (bind_eq_ok _ _ _).mp hrest
  obtain ⟨resolvConf, hresolvConf, hrest⟩ := (bind_eq_ok _ _ _).mp hrest
  obtain ⟨hosts, hhosts, hrest⟩ := (bind_eq_ok _ _ _).mp hrest
  obtain rfl := Except.ok.inj hrest
  obtain ⟨resolved, hresolved, hmap, hinside⟩ := mapM_factor _
    (resolvePosition host tree rootfs) id logical Inside
    (fun _ _ => resolveInnerTarget_inside hroot) _ hinner
  have hsame : resolved =
      [positions.proc, positions.dev, positions.sys, positions.tmp, positions.run] := by
    have hall := (mapM_eq_ok _ _ _).mp hresolved
    obtain ⟨hproc, hdev, hsys, -, htmp, hrun, -⟩ := hpositions
    cases hall with | cons hp hall =>
    cases hall with | cons hd hall =>
    cases hall with | cons hs hall =>
    cases hall with | cons ht hall =>
    cases hall with | cons hr hall =>
    cases hall
    rw [Except.ok.inj (hp.symm.trans hproc), Except.ok.inj (hd.symm.trans hdev),
      Except.ok.inj (hs.symm.trans hsys), Except.ok.inj (ht.symm.trans htmp),
      Except.ok.inj (hr.symm.trans hrun)]
  obtain ⟨etcAt, hetcAt, rfl⟩ := (resolveTarget_eq_ok _ _ _ _ _).mp hetc
  obtain rfl := Except.ok.inj (hetcAt.symm.trans hpositions.etc)
  have hetcProper := resolvePosition_proper hpositions.etc
  have hfile : ∀ name, ProperName name → Inside (positions.etc ++ [name]) := fun name hname =>
    ⟨by simp, proper_snoc hetcProper hname⟩
  have hresolvInside := hfile (lit "resolv.conf") (by decide)
  have hhostsInside := hfile (lit "hosts") (by decide)
  rw [physical_snoc] at hresolvConf hhosts
  have hresolvInner := ((innerPath_physical hroot hresolvInside.2).mp hresolvConf).2
  have hhostsInner := ((innerPath_physical hroot hhostsInside.2).mp hhosts).2
  rw [List.map_id] at hmap
  subst hsame
  refine ⟨?_, ?_⟩
  · rw [hmap, hresolvInner, hhostsInner]
    rfl
  · intro position hm
    simp only [StandardPositions.before, StandardPositions.after, List.cons_append,
      List.nil_append, List.mem_cons, List.not_mem_nil, or_false] at hm hinside
    rcases hm with rfl | rfl | rfl | rfl | rfl | rfl | rfl
    · exact hinside _ (by simp)
    · exact hinside _ (by simp)
    · exact hinside _ (by simp)
    · exact hinside _ (by simp)
    · exact hinside _ (by simp)
    · exact hresolvInside
    · exact hhostsInside

end Positions

end Sandcamp.Sandrun
