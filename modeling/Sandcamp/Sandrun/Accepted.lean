import Sandcamp.Foundations.Nesting
import Sandcamp.Sandrun.Args

/-!
# What `parse_args` accepts after its loop

`Usable` lists the conditions the checks of `finishArgs` put on the collected
options and the command; `finishArgs_eq_ok` says that they are exactly the
conditions under which a configuration is returned, and which one.
-/

namespace Sandcamp.Sandrun
open Foundations Foundations.UnixPath

theorem cleanPath_true (path : Bytes) : cleanPath path true = cleanAbsolute path := by
  cases h : isAbsolute path <;> simp [cleanPath, cleanAbsolute, h]

theorem cleanPath_false (path : Bytes) :
    cleanPath path false = true ↔ cleanAbsolute path = true ∧ names path ≠ [] := by
  by_cases hclean : cleanAbsolute path = true
  · have hroot : pathEq path (lit "/") = true ↔ names path = [] := pathEq_root_iff path hclean
    have hparts := hclean
    simp only [cleanAbsolute, Bool.and_eq_true] at hparts
    by_cases hn : names path = []
    · simp [cleanPath, hroot.mpr hn, hn]
    · have hne : pathEq path (lit "/") = false := by
        rw [← Bool.not_eq_true, hroot]
        exact hn
      simp [cleanPath, hparts.1, hparts.2, hne, hclean, hn]
  · have hfalse : cleanPath path false = false := by
      simp only [cleanAbsolute, Bool.and_eq_true, not_and, Bool.not_eq_true] at hclean
      by_cases habs : isAbsolute path = true
      · simp [cleanPath, hclean habs]
      · simp [cleanPath, habs]
    simp [hfalse, hclean]

theorem validatePath_eq_ok (field path : Bytes) (root : Bool) (u : Unit) :
    validatePath field path root = .ok u ↔ cleanPath path root = true := by
  simp only [validatePath, rejectIf_eq_ok, Bool.not_eq_false]

theorem cleanAbsolute_of_cleanPath (path : Bytes) (root : Bool) (h : cleanPath path root = true) :
    cleanAbsolute path = true := by
  cases root with
  | true => rwa [cleanPath_true] at h
  | false => exact ((cleanPath_false path).mp h).1

/-- The double loop over the targets finds exactly the nested pairs. -/
theorem validateTargetPaths_eq_ok (previous targets : List Bytes)
    (hprevious : ∀ t ∈ previous, cleanAbsolute t = true)
    (htargets : ∀ t ∈ targets, cleanAbsolute t = true)
    (hun : Unnested (previous.map names)) :
    validateTargetPaths previous targets = .ok () ↔
      Unnested ((previous ++ targets).map names) := by
  induction targets generalizing previous with
  | nil =>
    rw [List.append_nil]
    exact iff_of_true rfl hun
  | cons target rest ih =>
    have hclean := htargets target List.mem_cons_self
    have hfree : (∀ p ∈ previous, ¬pathEq target p = true ∧
        ¬(startsWith target p = true ∨ startsWith p target = true)) ↔
          ∀ p ∈ previous, ¬Nested (names p) (names target) := by
      refine forall₂_congr fun p hp => ?_
      rw [pathEq_iff target p hclean (hprevious p hp),
        startsWith_iff target p hclean (hprevious p hp),
        startsWith_iff p target (hprevious p hp) hclean]
      constructor
      · rintro ⟨-, h⟩ hn
        exact h hn
      · intro h
        exact ⟨fun he => h (he ▸ nested_self _), h⟩
    have hnext := ih (previous ++ [target]) (by
        intro t ht
        rcases List.mem_append.mp ht with ht | ht
        · exact hprevious t ht
        · rw [List.mem_singleton.mp ht]
          exact hclean)
      fun t ht => htargets t (List.mem_cons_of_mem _ ht)
    simp only [validateTargetPaths, bind_eq_ok, exists_unit, forEach_eq_ok, rejectIf_eq_ok, hfree]
    have hsplit : previous ++ target :: rest = previous ++ [target] ++ rest := by simp
    have hone : Unnested ((previous ++ [target]).map names) ↔
        ∀ p ∈ previous, ¬Nested (names p) (names target) := by
      rw [List.map_append, List.map_singleton, unnested_append_singleton]
      simp [hun]
    rw [hsplit]
    constructor
    · rintro ⟨hfirst, hrest⟩
      exact (hnext (hone.mpr hfirst)).mp hrest
    · intro h
      have hstart : Unnested ((previous ++ [target]).map names) :=
        h.sublist (List.Sublist.map names (List.sublist_append_left _ _))
      exact ⟨hone.mp hstart, (hnext hstart).mpr h⟩

/-- The conditions on the options and the command. -/
structure Usable (options : Options) (command : List Bytes) (rootfs : Bytes)
    (user : Option ProcessUser) : Prop where
  rootfs_given : options.rootfs = some rootfs
  rootfs_clean : cleanPath rootfs false = true
  device_clean : ∀ device, options.overlayDevice = some device → cleanPath device false = true
  id_length : ∀ id, options.overlayId = some id → id ≠ [] ∧ id.length ≤ 256
  device_id : options.overlayDevice.isSome → options.overlayId.isSome
  disk_device : options.diskMounts ≠ [] → options.overlayDevice.isSome
  workdir : cleanPath options.workdir true = true
  executable : ∃ executable rest, command = executable :: rest ∧ cleanPath executable false = true
  disk_clean : ∀ target ∈ options.diskMounts, cleanPath target false = true
  bind_clean : ∀ bind ∈ options.binds,
    cleanPath bind.source false = true ∧ cleanPath bind.target false = true
  tmpfs_clean : ∀ target ∈ options.tmpfs, cleanPath target false = true
  targets : Unnested ((mountTargets options.standardMounts options.diskMounts options.binds
    options.tmpfs).map names)
  user_given : combineUser options.userName options.uid options.gid = .ok user

/-- The configuration made of the options. -/
def Options.config (options : Options) (rootfs : Bytes) (user : Option ProcessUser)
    (command : List Bytes) : Config where
  rootfs := rootfs
  overlayDevice := options.overlayDevice
  overlayId := options.overlayId
  workdir := options.workdir
  user := user
  standardMounts := options.standardMounts
  diskMounts := options.diskMounts
  binds := options.binds
  tmpfs := options.tmpfs
  command := command

theorem standardTargets_clean : ∀ t ∈ standardTargets, cleanAbsolute t = true := by
  decide

theorem mountTargets_clean (options : Options)
    (hdisk : ∀ target ∈ options.diskMounts, cleanPath target false = true)
    (hbind : ∀ bind ∈ options.binds,
      cleanPath bind.source false = true ∧ cleanPath bind.target false = true)
    (htmpfs : ∀ target ∈ options.tmpfs, cleanPath target false = true) :
    ∀ t ∈ mountTargets options.standardMounts options.diskMounts options.binds options.tmpfs,
      cleanAbsolute t = true := by
  intro t ht
  simp only [mountTargets, List.mem_append, List.mem_map] at ht
  rcases ht with ((ht | ht) | ⟨bind, hb, rfl⟩) | ht
  · split_ifs at ht with hs
    · exact standardTargets_clean t ht
    · cases ht
  · exact cleanAbsolute_of_cleanPath t false (hdisk t ht)
  · exact cleanAbsolute_of_cleanPath _ false (hbind bind hb).2
  · exact cleanAbsolute_of_cleanPath t false (htmpfs t ht)

theorem finishArgs_eq_ok (options : Options) (command : List Bytes) (config : Config) :
    finishArgs options command = .ok config ↔
      ∃ rootfs user, Usable options command rootfs user ∧
        config = options.config rootfs user command := by
  simp only [finishArgs, bind_eq_ok, exists_unit, rejectIf_eq_ok, okOr_eq_ok, validatePath_eq_ok,
    forEach_eq_ok, Option.mem_toList, expect_eq_ok, mapError_eq_ok, Except.ok.injEq, not_or,
    not_lt, validateMountTargets]
  constructor
  · rintro ⟨-, rootfs, hrootfs, hroot, hdevice, hid, hdeviceId, hdisk, hworkdir, executable, hexe,
      hclean, hdisks, hbinds, htmpfs, htargets, user, huser, rfl⟩
    have hpaths := mountTargets_clean options hdisks hbinds htmpfs
    refine ⟨rootfs, user, ⟨hrootfs, hroot, hdevice, hid, ?_, ?_, hworkdir, ?_, hdisks, hbinds,
      htmpfs, ?_, huser⟩, rfl⟩
    · intro hd
      by_contra hn
      exact hdeviceId ⟨hd, by simpa using hn⟩
    · intro hd
      by_contra hn
      exact hdisk ⟨hd, by simpa using hn⟩
    · cases command with
      | nil => cases hexe
      | cons first rest =>
        cases hexe
        exact ⟨_, rest, rfl, hclean⟩
    · exact (validateTargetPaths_eq_ok [] _ (by simp) hpaths List.Pairwise.nil).mp htargets
  · rintro ⟨rootfs, user, h, rfl⟩
    obtain ⟨executable, rest, rfl, hclean⟩ := h.executable
    have hpaths := mountTargets_clean options h.disk_clean h.bind_clean h.tmpfs_clean
    refine ⟨by simp, rootfs, h.rootfs_given, h.rootfs_clean, h.device_clean, h.id_length, ?_, ?_,
      h.workdir, executable, rfl, hclean, h.disk_clean, h.bind_clean, h.tmpfs_clean, ?_, user,
      h.user_given, rfl⟩
    · rintro ⟨hd, hn⟩
      have hs := h.device_id hd
      rw [Option.isNone_iff_eq_none.mp hn] at hs
      cases hs
    · rintro ⟨hd, hn⟩
      have hs := h.disk_device hd
      rw [Option.isNone_iff_eq_none.mp hn] at hs
      cases hs
    · exact (validateTargetPaths_eq_ok [] _ (by simp) hpaths List.Pairwise.nil).mpr h.targets

end Sandcamp.Sandrun
