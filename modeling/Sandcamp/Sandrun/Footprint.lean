import Sandcamp.Sandrun.Linux

/-!
# Which files sandrun changes (linux.rs:305-1099)

Every function of `linux.rs` that works on files is given an area: whatever the answers are, it
changes nothing at a path outside. All these paths are written by adding names to the overlay base,
to the merged directory, or to the root for the source of a bind, and no such name is `..`.
-/

namespace Sandcamp.Sandrun
open Foundations Foundations.UnixPath Foundations.Thread

/-- The path of the file that the call makes, changes or removes. -/
def Syscall.changed : Syscall → Option Bytes
  | .mkdir path _ | .mkdirAll path _ | .createNew path _ | .openLock path _ | .writeAll path _
  | .chown path _ _ | .setPermissions path _ | .removeFile path => some path
  | _ => none

/-- The call concerns the process: its mounts, its directory, its identity or its program. -/
def Syscall.effective : Syscall → Bool
  | .unshare | .mount .. | .chdir _ | .pivotRoot | .detach | .credential _ | .ids | .exec .. => true
  | _ => false

/-- The call looks at files, or changes some of this area. -/
structure Filing (area : Bytes → Prop) (o : Syscall) : Prop where
  quiet : o.effective = false
  area : ∀ path, o.changed = some path → area path

/-! ### Paths below a base -/

/-- A name that can be added to a path without leaving the directory. -/
def Entry (name : Bytes) : Prop := name = [] ∨ ProperName name

/-- The path is the base with names added. -/
def Beneath (base path : Bytes) : Prop :=
  ∃ position, (∀ name ∈ position, Entry name) ∧ path = physical base position

theorem beneath_refl (base : Bytes) : Beneath base base := ⟨[], by simp, rfl⟩

theorem beneath_physical (base : Bytes) {position : Position} (h : Proper position) :
    Beneath base (physical base position) :=
  ⟨position, fun name hname => Or.inr (h name hname), rfl⟩

theorem Beneath.trans {base middle path : Bytes} (h : Beneath base middle)
    (h' : Beneath middle path) : Beneath base path := by
  obtain ⟨position, hposition, rfl⟩ := h
  obtain ⟨rest, hrest, rfl⟩ := h'
  refine ⟨position ++ rest, fun name hname => ?_, List.foldl_append.symm⟩
  rcases List.mem_append.mp hname with hname | hname
  · exact hposition name hname
  · exact hrest name hname

theorem beneath_entry {name : Bytes} (base : Bytes) (h : Entry name) :
    Beneath base (push base name) :=
  ⟨[name], by simpa using h, rfl⟩

theorem beneath_name {name : Bytes} (base : Bytes) (h : ProperName name) :
    Beneath base (push base name) :=
  beneath_entry base (Or.inr h)

/-- An added name that is empty adds no component. -/
theorem components_push_empty (p : Bytes) (hp : p ≠ []) : components (push p []) = components p := by
  unfold push
  rw [if_neg (by decide)]
  split_ifs with hend
  · rw [List.append_nil]
  · rw [components_snoc p [] (by simp) hp]
    exact List.append_nil _

theorem components_entry {name : Bytes} (p : Bytes) (hp : p ≠ []) (h : Entry name) :
    ∃ added, components (push p name) = components p ++ added := by
  rcases h with rfl | hname
  · exact ⟨[], by rw [components_push_empty p hp, List.append_nil]⟩
  · exact ⟨_, components_push p name hp hname⟩

theorem push_entry_ne_nil {name : Bytes} (p : Bytes) (hp : p ≠ []) (h : Entry name) :
    push p name ≠ [] := by
  rcases h with rfl | hname
  · unfold push
    rw [if_neg (by decide)]
    split_ifs <;> simp [hp]
  · exact push_ne_nil p name hp hname

theorem startsWith_beneath {base path : Bytes} (hbase : base ≠ []) (h : Beneath base path) :
    startsWith path base = true := by
  obtain ⟨position, hposition, rfl⟩ := h
  rw [startsWith, List.isPrefixOf_iff_prefix]
  induction position generalizing base with
  | nil => exact List.prefix_refl _
  | cons name position ih =>
    have hname := hposition name List.mem_cons_self
    obtain ⟨added, hadded⟩ := components_entry base hbase hname
    have hrest := ih (push_entry_ne_nil base hbase hname) fun other hother =>
      hposition other (List.mem_cons_of_mem _ hother)
    exact (hadded ▸ List.prefix_append _ added).trans hrest

/-- What lies below one of two directories neither of which contains the other is not below the
other one. -/
theorem not_startsWith_of_beneath {base other path : Bytes} (hbase : base ≠ [])
    (hapart : (startsWith base other || startsWith other base) = false) (h : Beneath base path) :
    startsWith path other = false := by
  have hpath := startsWith_beneath hbase h
  rw [Bool.or_eq_false_iff] at hapart
  by_contra hother
  rw [Bool.not_eq_false, startsWith, List.isPrefixOf_iff_prefix] at hother
  rw [startsWith, List.isPrefixOf_iff_prefix] at hpath
  rcases List.prefix_or_prefix_of_prefix hpath hother with hup | hdown
  · have hin : startsWith other base = true := List.isPrefixOf_iff_prefix.mpr hup
    rw [hapart.2] at hin
    cases hin
  · have hin : startsWith base other = true := List.isPrefixOf_iff_prefix.mpr hdown
    rw [hapart.1] at hin
    cases hin

/-- One of the directories that a clean path goes through, or its end. -/
def Along (source path : Bytes) : Prop :=
  ∃ position, position <+: names source ∧ path = logical position

/-- The directories of an overlay. -/
def LayersOf (sha256 : Bytes → Bytes) (base lower : Bytes) (layers : Linux.LayerPaths) :
    Option Bytes → Prop
  | some overlayId =>
    let workspace := push base (hexLower (sha256 (overlayIdentity overlayId lower)))
    layers.upper = push workspace (lit "upper") ∧ layers.work = push workspace (lit "work") ∧
      Beneath (push workspace (lit "merged")) layers.merged
  | none => ∃ workspace, Beneath base workspace ∧ layers.upper = push workspace (lit "upper") ∧
      layers.work = push workspace (lit "work") ∧ layers.merged = push workspace (lit "merged")

/-! ### The names that are added -/

theorem mem_toDigits {b n : ℕ} (hb : 1 < b) {c : Char} (h : c ∈ Nat.toDigits b n) :
    ∃ d < b, c = d.digitChar := by
  induction n using Nat.strong_induction_on with
  | _ n ih =>
    by_cases hn : n < b
    · rw [Nat.toDigits_of_lt_base hn, List.mem_singleton] at h
      exact ⟨n, hn, h⟩
    · have hle : b ≤ n := not_lt.mp hn
      rw [Nat.toDigits_of_base_le hb hle, List.mem_append] at h
      rcases h with h | h
      · exact ih (n / b) (Nat.div_lt_self (by omega) hb) h
      · exact ⟨n % b, Nat.mod_lt n (by omega), List.mem_singleton.mp h⟩

theorem slash_not_mem_decimal (n : ℕ) : slash ∉ decimal n := by
  intro h
  obtain ⟨c, hc, hslash⟩ := List.mem_map.mp h
  obtain ⟨d, hd, rfl⟩ := mem_toDigits (by decide) hc
  have hall : ∀ d < 10, d.digitChar.toUInt8 ≠ slash := by decide
  exact hall d hd hslash

theorem slash_not_mem_hexadecimal (n : ℕ) : slash ∉ hexadecimal n := by
  intro h
  obtain ⟨c, hc, hslash⟩ := List.mem_map.mp h
  obtain ⟨d, hd, rfl⟩ := mem_toDigits (by decide) hc
  have hall : ∀ d < 16, UInt8.ofNat d.digitChar.toNat ≠ slash := by decide
  exact hall d hd hslash

theorem proper_workspaceName (pid nonce attempt : ℕ) :
    ProperName (workspaceName pid nonce attempt) := by
  have hdash : (45 : UInt8) ∈ workspaceName pid nonce attempt := by
    have hlit : (45 : UInt8) ∈ lit "-" := by decide
    simp only [workspaceName, List.mem_append]
    exact Or.inl (Or.inr hlit)
  refine ⟨?_, ?_, ?_, ?_⟩
  · rintro h
    rw [h] at hdash
    cases hdash
  · intro h
    rw [h] at hdash
    exact absurd hdash (by decide)
  · intro h
    rw [h] at hdash
    exact absurd hdash (by decide)
  · simp only [workspaceName, List.mem_append, not_or]
    exact ⟨⟨⟨⟨slash_not_mem_decimal pid, by decide⟩, slash_not_mem_hexadecimal nonce⟩, by decide⟩,
      slash_not_mem_decimal attempt⟩

theorem entry_hexLower (digest : Bytes) : Entry (hexLower digest) := by
  cases digest with
  | nil => exact Or.inl rfl
  | cons byte rest =>
    have hdigits : ∀ d ∈ hexLower (byte :: rest), d ≠ slash ∧ d ≠ 46 := by
      intro d hd
      obtain ⟨b, -, hd⟩ := List.mem_flatMap.mp hd
      have hall : ∀ n < 16, hexDigit n ≠ slash ∧ hexDigit n ≠ 46 := by decide
      have hlt := UInt8.toNat_lt b
      rcases List.mem_cons.mp hd with rfl | hd
      · exact hall _ (by omega)
      · rw [List.mem_singleton.mp hd]
        exact hall _ (Nat.mod_lt _ (by decide))
    have hdot : (46 : UInt8) ∉ hexLower (byte :: rest) := fun h => (hdigits 46 h).2 rfl
    refine Or.inr ⟨List.cons_ne_nil _ _, ?_, ?_, fun h => (hdigits slash h).1 rfl⟩
    · intro h
      rw [h] at hdot
      exact hdot (by decide)
    · intro h
      rw [h] at hdot
      exact hdot (by decide)

/-- The ordinary components of a path are proper names. -/
theorem proper_component {path name : Bytes} (h : Component.normal name ∈ components path) :
    ProperName name :=
  names_proper path name (List.mem_filterMap.mpr ⟨_, h, rfl⟩)

theorem proper_fileName {path name : Bytes} (h : fileName path = some name) : ProperName name := by
  unfold fileName at h
  split at h
  next found hlast =>
    obtain rfl := Option.some.inj h
    exact proper_component (List.mem_of_getLast? hlast)
  next => cases h

theorem proper_parent {path name : Bytes} {above : List Component} (h : parent path = some above)
    (hname : Component.normal name ∈ above) : ProperName name := by
  unfold parent at h
  split at h
  next => cases h
  next => cases h
  next =>
    obtain rfl := Option.some.inj h
    exact proper_component (List.dropLast_subset _ hname)

theorem beneath_layers {sha256 : Bytes → Bytes} {base lower : Bytes} {layers : Linux.LayerPaths}
    {overlayId : Option Bytes} (h : LayersOf sha256 base lower layers overlayId) :
    Beneath base layers.upper ∧ Beneath base layers.merged := by
  have hupper : ProperName (lit "upper") := by decide
  have hmergedName : ProperName (lit "merged") := by decide
  cases overlayId with
  | some overlayId =>
    obtain ⟨hlayer, -, hmerged⟩ := h
    have hworkspace :=
      beneath_entry base (entry_hexLower (sha256 (overlayIdentity overlayId lower)))
    rw [hlayer]
    exact ⟨hworkspace.trans (beneath_name _ hupper),
      (hworkspace.trans (beneath_name _ hmergedName)).trans hmerged⟩
  | none =>
    obtain ⟨workspace, hworkspace, hlayer, -, hmerged⟩ := h
    rw [hlayer, hmerged]
    exact ⟨hworkspace.trans (beneath_name _ hupper), hworkspace.trans (beneath_name _ hmergedName)⟩

/-- Nothing is missing that `run` expects to be there. -/
structure Config.Furnished (config : Config) : Prop where
  command : config.command[0]?.isSome
  overlayId : config.diskMounts ≠ [] → config.overlayId.isSome

namespace Linux

/-! ### Steps -/

/-- Every error of `linux.rs` is such a failure. -/
class Refuses (E : Failure RuntimeError → Prop) : Prop where
  error : ∀ e, E (.error e)

/-- Any failure. -/
def Unchecked (_ : Failure RuntimeError) : Prop := True

/-- No panic. -/
def Sound (failure : Failure RuntimeError) : Prop := failure ≠ .panic

instance : Refuses Unchecked := ⟨fun _ => trivial⟩

instance : Refuses Sound := ⟨fun _ => nofun⟩

section Steps

variable {C : Syscall → Prop} {E : Failure RuntimeError → Prop} {α : Type}

theorem asks_refuse [Refuses E] {Q : α → Prop} (error : RuntimeError) : Asks C E (refuse error) Q :=
  Refuses.error error

theorem asks_any {Q : α → Prop} {t : Linux α} (h : Asks C E t Q) : Asks C E t fun _ => True :=
  asks_post h fun _ _ => trivial

theorem asks_check [Refuses E] (condition : Bool) (error : RuntimeError) :
    Asks C E (check condition error) fun _ => condition = true := by
  unfold check
  split
  · assumption
  · exact asks_refuse error

theorem asks_orRefuse [Refuses E] (value : Option α) (error : RuntimeError) :
    Asks C E (orRefuse value error) fun a => value = some a := by
  cases value with
  | some a => exact asks_pure a rfl
  | none => exact asks_refuse _

theorem asks_ofExcept [Refuses E] (result : Except RuntimeError α) :
    Asks C E (ofExcept result) fun a => result = .ok a := by
  cases result with
  | ok a => exact asks_pure a rfl
  | error e => exact asks_refuse _

theorem asks_expect (value : Option α) (h : E .panic ∨ value.isSome) :
    Asks C E (expect value) fun a => value = some a := by
  cases value with
  | some a => exact asks_pure a rfl
  | none =>
    rcases h with hpanic | hsome
    · exact hpanic
    · cases hsome

theorem asks_onlyIf (condition : Bool) {action : Linux Unit}
    (h : Asks C E action fun _ => True) : Asks C E (onlyIf condition action) fun _ => True := by
  cases condition with
  | true => exact h
  | false => trivial

variable {σ : Type} {monitor : Monitor σ Syscall Reply} {s : σ}

theorem meets_check (condition : Bool) (error : RuntimeError) :
    Meets monitor (check condition error) s fun _ s' => s' = s ∧ condition = true := by
  unfold check
  split
  · exact ⟨rfl, by assumption⟩
  · trivial

theorem meets_orRefuse (value : Option α) (error : RuntimeError) :
    Meets monitor (orRefuse value error) s fun a s' => s' = s ∧ value = some a := by
  cases value with
  | some a => exact ⟨rfl, rfl⟩
  | none => trivial

theorem meets_expect (value : Option α) :
    Meets monitor (expect value) s fun a s' => s' = s ∧ value = some a := by
  cases value with
  | some a => exact ⟨rfl, rfl⟩
  | none => trivial

end Steps

section Files

variable {area : Bytes → Prop} {E : Failure RuntimeError → Prop}

theorem asks_look (o : Syscall) (hquiet : o.effective = false) (hchanged : o.changed = none) :
    Asks (Filing area) E (syscall o) fun _ => True := by
  refine asks_perform o ⟨hquiet, fun path hpath => ?_⟩
  rw [hchanged] at hpath
  cases hpath

theorem asks_change (o : Syscall) {path : Bytes} (hquiet : o.effective = false)
    (hchanged : o.changed = some path) (h : area path) :
    Asks (Filing area) E (syscall o) fun _ => True := by
  refine asks_perform o ⟨hquiet, fun other hother => ?_⟩
  rw [hchanged] at hother
  rw [← Option.some.inj hother]
  exact h

variable [Refuses E]

theorem canonicalize_asks (path : Bytes) (operation : String) :
    Asks (Filing area) E (canonicalize path operation) fun _ => True :=
  asks_bind (asks_look _ rfl rfl) fun _ _ => asks_any (asks_orRefuse _ _)

theorem metadata_asks (path : Bytes) (operation : String) :
    Asks (Filing area) E (metadata path operation) fun _ => True :=
  asks_bind (asks_look _ rfl rfl) fun _ _ => asks_any (asks_orRefuse _ _)

theorem symlinkMetadata_asks (path : Bytes) (operation : String) :
    Asks (Filing area) E (symlinkMetadata path operation) fun _ => True :=
  asks_bind (asks_look _ rfl rfl) fun _ _ => asks_any (asks_orRefuse _ _)

theorem lookUp_asks (path : Bytes) (operation : String) :
    Asks (Filing area) E (lookUp path operation) fun _ => True := by
  refine asks_bind (asks_look _ rfl rfl) fun reply _ => ?_
  match reply with
  | .ok found => exact asks_pure _ trivial
  | .error .notFound => exact asks_pure _ trivial
  | .error .other => exact asks_refuse _

/-! ### Resolving paths -/

theorem prepareRootfs_asks (path : Bytes) :
    Asks (Filing area) E (prepareRootfs path) fun _ => True := by
  refine asks_bind (canonicalize_asks path _) fun rootfs _ => ?_
  refine asks_bind (metadata_asks rootfs _) fun found _ => ?_
  exact asks_bind (asks_check _ _) fun _ _ => asks_pure rootfs trivial

theorem findLink_asks (physical innerParent : Bytes) (path : List Bytes) :
    Asks (Filing area) E (findLink physical innerParent path) fun _ => True := by
  induction path generalizing physical innerParent with
  | nil => trivial
  | cons component rest ih =>
    refine asks_bind (symlinkMetadata_asks _ _) fun found _ => ?_
    split
    · exact asks_pure _ trivial
    · exact ih _ _

theorem resolveFrom_asks (rootfs target : Bytes) (left : ℕ) (path : Bytes) :
    Asks (Filing area) E (resolveFrom rootfs target left path) (Beneath rootfs) := by
  induction left generalizing path with
  | zero =>
    unfold resolveFrom
    refine asks_bind (findLink_asks _ _ _) fun found _ => ?_
    match found with
    | none => exact asks_pure _ (beneath_physical rootfs (names_proper path))
    | some (physical, innerParent, rest) => exact asks_refuse _
  | succ left ih =>
    unfold resolveFrom
    refine asks_bind (findLink_asks _ _ _) fun found _ => ?_
    match found with
    | none => exact asks_pure _ (beneath_physical rootfs (names_proper path))
    | some (physical, innerParent, rest) =>
      refine asks_bind (asks_look _ rfl rfl) fun link _ => ?_
      refine asks_bind (asks_orRefuse _ _) fun link _ => ?_
      exact asks_bind (asks_orRefuse _ _) fun next _ => ih next

theorem resolveTarget_asks (rootfs target : Bytes) :
    Asks (Filing area) E (resolveTarget rootfs target) (Beneath rootfs) :=
  asks_bind (asks_orRefuse _ _) fun path _ => resolveFrom_asks rootfs target 40 path

theorem resolveInnerTarget_asks (rootfs target : Bytes) :
    Asks (Filing area) E (resolveInnerTarget rootfs target) fun _ => True :=
  asks_bind (resolveTarget_asks rootfs target) fun _ _ => asks_any (asks_ofExcept _)

theorem resolveDirectory_asks (rootfs target : Bytes) :
    Asks (Filing area) E (resolveDirectory rootfs target) (Beneath rootfs) := by
  refine asks_bind (resolveTarget_asks rootfs target) fun resolved hresolved => ?_
  refine asks_bind (metadata_asks resolved _) fun found _ => ?_
  exact asks_bind (asks_check _ _) fun _ _ => asks_pure resolved hresolved

theorem resolveUser_asks (rootfs user : Bytes) :
    Asks (Filing area) E (resolveUser rootfs user) fun _ => True := by
  refine asks_bind (resolveTarget_asks rootfs _) fun passwd _ => ?_
  refine asks_bind (metadata_asks passwd _) fun found _ => ?_
  refine asks_bind (asks_check _ _) fun _ _ => ?_
  refine asks_bind (asks_check _ _) fun _ _ => ?_
  refine asks_bind (asks_look _ rfl rfl) fun contents _ => ?_
  refine asks_bind (asks_orRefuse _ _) fun contents _ => ?_
  refine asks_bind (asks_check _ _) fun _ _ => ?_
  refine asks_bind (asks_check _ _) fun _ _ => ?_
  exact asks_any (asks_ofExcept _)

theorem resolveIdentity_asks (rootfs : Bytes) (user : Option ProcessUser) :
    Asks (Filing area) E (resolveIdentity rootfs user) fun _ => True := by
  match user with
  | some (.named user) =>
    exact asks_bind (resolveUser_asks rootfs user) fun identity _ => asks_pure _ trivial
  | some (.numeric uid gid) => exact asks_bind (asks_check _ _) fun _ _ => asks_pure _ trivial
  | none => exact asks_pure _ trivial

/-! ### Directories -/

theorem createDirectory_asks {path : Bytes} (h : area path)
    (createOperation chmodOperation : String) :
    Asks (Filing area) E (createDirectory path createOperation chmodOperation) fun _ => True := by
  refine asks_bind (asks_change _ rfl rfl h) fun creation _ => ?_
  match creation with
  | .created =>
    exact asks_bind (asks_change _ rfl rfl h) fun _ _ => asks_any (asks_check _ _)
  | .alreadyExists => exact asks_pure _ trivial
  | .failed => exact asks_refuse _

theorem ensurePrivateDirectory_asks {path : Bytes} (h : area path) (operation : String) :
    Asks (Filing area) E (ensurePrivateDirectory path operation) fun _ => True := by
  refine asks_bind (asks_change _ rfl rfl h) fun made _ => ?_
  refine asks_bind (asks_check _ _) fun _ _ => ?_
  exact asks_bind (symlinkMetadata_asks path _) fun found _ => asks_any (asks_check _ _)

theorem enterSourceDirectory_asks {current : Bytes} (h : area current) :
    Asks (Filing area) E (enterSourceDirectory current) fun _ => True := by
  refine asks_bind (lookUp_asks current _) fun found _ => ?_
  match found with
  | some found =>
    dsimp only
    split
    · exact asks_bind (metadata_asks current _) fun behind _ => asks_any (asks_check _ _)
    · exact asks_any (asks_check _ _)
  | none =>
    refine asks_bind (createDirectory_asks h _ _) fun _ _ => ?_
    exact asks_bind (symlinkMetadata_asks current _) fun found _ => asks_any (asks_check _ _)

/-- Every directory on the way is that of some first components. -/
theorem enterSourceDirectories_asks (source : Bytes) {current : Bytes} {rest : List Component}
    (h : ∀ position, position <+: (rest.filterMap fun
        | .normal name => some name
        | _ => none) → area (physical current position)) :
    Asks (Filing area) E (enterSourceDirectories source current rest) fun _ => True := by
  induction rest generalizing current with
  | nil => trivial
  | cons component rest ih =>
    cases component with
    | rootDir => exact ih h
    | normal name =>
      refine asks_bind (enterSourceDirectory_asks (h [name] ⟨_, rfl⟩)) fun _ _ => ih ?_
      exact fun position hposition => h (name :: position) (List.cons_prefix_cons.mpr ⟨rfl, hposition⟩)
    | curDir => exact asks_refuse _
    | parentDir => exact asks_refuse _

theorem prepareBindSources_asks {binds : List Bind}
    (h : ∀ bind ∈ binds, ∀ path, Along bind.source path → area path) :
    Asks (Filing area) E (prepareBindSources binds) fun _ => True := by
  refine asks_each fun bind hbind => ?_
  refine asks_bind (asks_look _ rfl rfl) fun reply _ => ?_
  match reply with
  | .ok _ => exact asks_pure _ trivial
  | .error .other => exact asks_refuse _
  | .error .notFound =>
    refine asks_bind (enterSourceDirectories_asks _ fun position hposition => ?_) fun _ _ => ?_
    · exact h bind hbind _ ⟨position, hposition, rfl⟩
    · exact asks_bind (canonicalize_asks _ _) fun _ _ => asks_pure _ trivial

/-! ### The overlay -/

theorem acquireOverlayLock_asks {path : Bytes} (h : area path) :
    Asks (Filing area) E (acquireOverlayLock path) fun _ => True := by
  refine asks_bind (asks_change _ rfl rfl h) fun opened _ => ?_
  refine asks_bind (asks_check _ _) fun _ _ => ?_
  refine asks_bind (asks_look _ rfl rfl) fun locked _ => ?_
  refine asks_bind (asks_check _ _) fun _ _ => ?_
  exact asks_bind (asks_look _ rfl rfl) fun inherited _ => asks_any (asks_check _ _)

theorem ensureIdentity_asks {path : Bytes} (h : area path) (expected : Bytes) :
    Asks (Filing area) E (ensureIdentity path expected) fun _ => True := by
  refine asks_bind (asks_change _ rfl rfl h) fun creation _ => ?_
  match creation with
  | .created => exact asks_bind (asks_change _ rfl rfl h) fun written _ => asks_any (asks_check _ _)
  | .alreadyExists =>
    refine asks_bind (asks_look _ rfl rfl) fun actual _ => ?_
    exact asks_bind (asks_orRefuse _ _) fun actual _ => asks_any (asks_check _ _)
  | .failed => exact asks_refuse _

theorem tryWorkspaces_asks {base : Bytes} (h : ∀ path, Beneath base path → area path)
    (pid nonce : ℕ) (attempts : List ℕ) :
    Asks (Filing area) E (tryWorkspaces base pid nonce attempts) (Beneath base) := by
  induction attempts with
  | nil => exact asks_refuse _
  | cons attempt rest ih =>
    have hworkspace := beneath_name base (proper_workspaceName pid nonce attempt)
    refine asks_bind (asks_change _ rfl rfl (h _ hworkspace)) fun creation _ => ?_
    match creation with
    | .created => exact asks_pure _ hworkspace
    | .alreadyExists => exact ih
    | .failed => exact asks_refuse _

theorem createOverlayWorkspace_asks {base : Bytes} (h : ∀ path, Beneath base path → area path) :
    Asks (Filing area) E (createOverlayWorkspace base) (Beneath base) :=
  asks_bind (asks_look _ rfl rfl) fun now _ => tryWorkspaces_asks h now.1 now.2 _

theorem stableOverlayPaths_asks (sha256 : Bytes → Bytes) {base : Bytes} (lower overlayId : Bytes)
    (h : ∀ path, Beneath base path → area path) :
    Asks (Filing area) E (stableOverlayPaths sha256 base lower overlayId) fun layers =>
      LayersOf sha256 base lower layers (some overlayId) := by
  have hworkspace := beneath_entry base (entry_hexLower (sha256 (overlayIdentity overlayId lower)))
  have hbelow : ∀ {name : Bytes}, ProperName name →
      Beneath base (push (push base (hexLower (sha256 (overlayIdentity overlayId lower)))) name) :=
    fun hname => hworkspace.trans (beneath_name _ hname)
  refine asks_bind (ensurePrivateDirectory_asks (h _ hworkspace) _) fun _ _ => ?_
  have hmerged := hbelow (show ProperName (lit "merged") by decide)
  refine asks_bind (acquireOverlayLock_asks (h _ (hbelow (by decide)))) fun _ _ => ?_
  refine asks_bind (ensureIdentity_asks (h _ (hbelow (by decide))) _) fun _ _ => ?_
  refine asks_bind (ensurePrivateDirectory_asks (h _ (hbelow (by decide))) _) fun _ _ => ?_
  refine asks_bind (ensurePrivateDirectory_asks (h _ (hbelow (by decide))) _) fun _ _ => ?_
  exact asks_bind (createOverlayWorkspace_asks fun path hpath => h path (hmerged.trans hpath))
    fun merged hbeneath => asks_pure _ ⟨rfl, rfl, hbeneath⟩

theorem temporaryOverlayPaths_asks (sha256 : Bytes → Bytes) {base : Bytes} (lower : Bytes)
    (h : ∀ path, Beneath base path → area path) :
    Asks (Filing area) E (temporaryOverlayPaths base) fun layers =>
      LayersOf sha256 base lower layers none := by
  refine asks_bind (createOverlayWorkspace_asks h) fun workspace hworkspace => ?_
  have hbelow : ∀ {name : Bytes}, ProperName name → Beneath base (push workspace name) :=
    fun hname => hworkspace.trans (beneath_name _ hname)
  refine asks_bind (ensurePrivateDirectory_asks (h _ (hbelow (by decide))) _) fun _ _ => ?_
  refine asks_bind (ensurePrivateDirectory_asks (h _ (hbelow (by decide))) _) fun _ _ => ?_
  exact asks_pure _ ⟨workspace, hworkspace, rfl, rfl, rfl⟩

theorem overlayPaths_asks (sha256 : Bytes → Bytes) {base : Bytes} (lower : Bytes)
    (overlayId : Option Bytes) (h : ∀ path, Beneath base path → area path) :
    Asks (Filing area) E (overlayPaths sha256 base lower overlayId) fun layers =>
      LayersOf sha256 base lower layers overlayId := by
  cases overlayId with
  | some overlayId => exact stableOverlayPaths_asks sha256 lower overlayId h
  | none => exact temporaryOverlayPaths_asks sha256 lower h

theorem ensureOverlayUpperDirectory_asks {path : Bytes} (h : area path) (lower : Bytes) :
    Asks (Filing area) E (ensureOverlayUpperDirectory path lower) fun _ => True := by
  refine asks_bind (asks_change _ rfl rfl h) fun creation _ => ?_
  refine asks_bind (asks_check _ _) fun _ _ => ?_
  refine asks_bind (symlinkMetadata_asks path _) fun found _ => ?_
  refine asks_bind (asks_check _ _) fun _ _ => asks_onlyIf _ ?_
  refine asks_bind (metadata_asks lower _) fun found _ => ?_
  refine asks_bind (asks_check _ _) fun _ _ => ?_
  refine asks_bind (asks_change _ rfl rfl h) fun owned _ => ?_
  refine asks_bind (asks_check _ _) fun _ _ => ?_
  exact asks_bind (asks_change _ rfl rfl h) fun changed _ => asks_any (asks_check _ _)

/-! ### The targets of the binds -/

section Targets

variable {rootfs : Bytes} (h : ∀ path, Beneath rootfs path → area path)
include h

theorem enterDirectory_asks (logical : Bytes) {resolved name : Bytes}
    (hresolved : Beneath rootfs resolved) (hname : ProperName name) :
    Asks (Filing area) E (enterDirectory rootfs logical resolved name) (Beneath rootfs) := by
  have hcandidate := hresolved.trans (beneath_name resolved hname)
  refine asks_bind (lookUp_asks _ _) fun found _ => ?_
  match found with
  | some found =>
    dsimp only
    split
    · refine asks_bind (resolveTarget_asks rootfs logical) fun behind hbehind => ?_
      refine asks_bind (metadata_asks behind _) fun found _ => ?_
      exact asks_bind (asks_check _ _) fun _ _ => asks_pure _ hbehind
    · exact asks_bind (asks_check _ _) fun _ _ => asks_pure _ hcandidate
  | none =>
    refine asks_bind (createDirectory_asks (h _ hcandidate) _ _) fun _ _ => ?_
    refine asks_bind (symlinkMetadata_asks _ _) fun found _ => ?_
    exact asks_bind (asks_check _ _) fun _ _ => asks_pure _ hcandidate

theorem ensureBindTargetDirectory_asks (target : Bytes) {logical resolved : Bytes}
    {rest : List Component} (hresolved : Beneath rootfs resolved)
    (hrest : ∀ name, Component.normal name ∈ rest → ProperName name) :
    Asks (Filing area) E (ensureBindTargetDirectory rootfs target logical resolved rest)
      (Beneath rootfs) := by
  induction rest generalizing logical resolved with
  | nil => exact asks_pure _ hresolved
  | cons component rest ih =>
    have hlater : ∀ name, Component.normal name ∈ rest → ProperName name := fun name hname =>
      hrest name (List.mem_cons_of_mem _ hname)
    cases component with
    | rootDir => exact ih hresolved hlater
    | normal name =>
      exact asks_bind (enterDirectory_asks h _ hresolved (hrest name List.mem_cons_self))
        fun resolved hresolved => ih hresolved hlater
    | curDir => exact asks_refuse _
    | parentDir => exact asks_refuse _

omit h in
theorem createBindTarget_asks (target : Bytes) {path : Bytes} (hpath : area path)
    (source : FileType) :
    Asks (Filing area) E (createBindTarget target path source) fun _ => True := by
  have hcreate : Asks (Filing area) E (createTarget target path source) fun _ => True := by
    cases source with
    | directory => exact asks_bind (asks_change _ rfl rfl hpath) fun _ _ => asks_pure _ trivial
    | regular => exact asks_bind (asks_change _ rfl rfl hpath) fun _ _ => asks_pure _ trivial
    | symlink => exact asks_refuse _
    | blockDevice => exact asks_refuse _
    | other => exact asks_refuse _
  refine asks_bind hcreate fun creation _ => ?_
  match creation with
  | (.created, mode) =>
    exact asks_bind (asks_change _ rfl rfl hpath) fun _ _ => asks_any (asks_check _ _)
  | (.alreadyExists, _) => exact asks_pure _ trivial
  | (.failed, _) => exact asks_refuse _

theorem ensureBindTarget_asks (bind : Bind) :
    Asks (Filing area) E (ensureBindTarget rootfs bind) fun _ => True := by
  refine asks_bind (canonicalize_asks _ _) fun source _ => ?_
  refine asks_bind (metadata_asks source _) fun found _ => ?_
  refine asks_bind (asks_orRefuse _ _) fun above habove => ?_
  refine asks_bind (ensureBindTargetDirectory_asks h _ (beneath_refl rootfs)
    fun name hname => proper_parent habove hname) fun directory hdirectory => ?_
  refine asks_bind (asks_orRefuse _ _) fun name hname => ?_
  have hpath := hdirectory.trans (beneath_name directory (proper_fileName hname))
  refine asks_bind (lookUp_asks _ _) fun there _ => ?_
  match there with
  | some _ => exact asks_pure _ trivial
  | none => exact createBindTarget_asks _ (h _ hpath) _

end Targets

/-! ### Checks before the mounts -/

theorem prepareWorkdir_asks (rootfs workdir : Bytes) :
    Asks (Filing area) E (prepareWorkdir rootfs workdir) fun _ => True := by
  refine asks_bind (resolveTarget_asks rootfs workdir) fun resolved _ => ?_
  exact asks_bind (metadata_asks resolved _) fun found _ => asks_any (asks_check _ _)

theorem prepareExecutable_asks (rootfs executable : Bytes) :
    Asks (Filing area) E (prepareExecutable rootfs executable) fun _ => True := by
  refine asks_bind (resolveTarget_asks rootfs executable) fun resolved _ => ?_
  refine asks_bind (metadata_asks resolved _) fun found _ => ?_
  exact asks_bind (asks_check _ _) fun _ _ => asks_any (asks_check _ _)

theorem resolvedStandardTargets_asks (rootfs : Bytes) (standardMounts : Bool) :
    Asks (Filing area) E (resolvedStandardTargets rootfs standardMounts) fun _ => True := by
  cases standardMounts with
  | false => exact asks_pure _ trivial
  | true =>
    refine asks_bind (asks_mapEach fun target _ => resolveInnerTarget_asks rootfs target)
      fun targets _ => ?_
    refine asks_bind (resolveTarget_asks rootfs _) fun etc _ => ?_
    refine asks_bind (asks_ofExcept _) fun _ _ => ?_
    refine asks_bind (asks_ofExcept _) fun _ _ => ?_
    exact asks_bind (asks_ofExcept _) fun _ _ => asks_pure _ trivial

theorem validateResolvedMountTargets_asks (rootfs : Bytes) (config : Config) :
    Asks (Filing area) E (validateResolvedMountTargets rootfs config) fun _ => True := by
  refine asks_bind (resolvedStandardTargets_asks rootfs _) fun standard _ => ?_
  refine asks_bind (asks_mapEach fun target _ => resolveInnerTarget_asks rootfs target)
    fun disk _ => ?_
  refine asks_bind (asks_mapEach fun bind _ => resolveInnerTarget_asks rootfs bind.target)
    fun binds _ => ?_
  refine asks_bind (asks_mapEach fun target _ => resolveInnerTarget_asks rootfs target)
    fun tmpfs _ => ?_
  exact asks_any (asks_ofExcept _)

/-! ### What is prepared -/

theorem prepareBindWithRecursion_asks (rootfs : Bytes) (bind : Bind) (recursive : Bool) :
    Asks (Filing area) E (prepareBindWithRecursion rootfs bind recursive) fun _ => True := by
  refine asks_bind (canonicalize_asks _ _) fun source _ => ?_
  refine asks_bind (resolveTarget_asks _ _) fun target _ => ?_
  refine asks_bind (metadata_asks _ _) fun found _ => ?_
  refine asks_bind (metadata_asks _ _) fun there _ => ?_
  exact asks_bind (asks_check _ _) fun _ _ => asks_pure _ trivial

theorem prepareRegularSource_asks (path : Bytes) :
    Asks (Filing area) E (prepareRegularSource path) fun _ => True := by
  refine asks_bind (canonicalize_asks _ _) fun source _ => ?_
  refine asks_bind (metadata_asks _ _) fun found _ => ?_
  exact asks_bind (asks_check _ _) fun _ _ => asks_pure _ trivial

theorem prepareMounts_asks (rootfs : Bytes) (config : Config) :
    Asks (Filing area) E (prepareMounts rootfs config) fun _ => True := by
  have hstandard : Asks (Filing area) E (prepareStandardMounts rootfs config.standardMounts)
      fun _ => True := by
    cases config.standardMounts with
    | false => exact asks_pure _ trivial
    | true =>
      refine asks_bind (resolveDirectory_asks _ _) fun proc _ => ?_
      refine asks_bind (prepareBindWithRecursion_asks _ _ _) fun dev _ => ?_
      refine asks_bind (prepareBindWithRecursion_asks _ _ _) fun sys _ => ?_
      refine asks_bind (prepareBindWithRecursion_asks _ _ _) fun cgroup _ => ?_
      refine asks_bind (resolveDirectory_asks _ _) fun tmp _ => ?_
      refine asks_bind (resolveDirectory_asks _ _) fun run _ => ?_
      refine asks_bind (resolveDirectory_asks _ _) fun etc _ => ?_
      refine asks_bind (prepareRegularSource_asks _) fun resolvConf _ => ?_
      exact asks_bind (prepareRegularSource_asks _) fun hosts _ => asks_pure _ trivial
  refine asks_bind hstandard fun standard _ => ?_
  refine asks_bind (asks_mapEach fun bind _ => prepareBindWithRecursion_asks rootfs bind false)
    fun binds _ => ?_
  exact asks_bind (asks_mapEach fun target _ => resolveDirectory_asks rootfs target)
    fun tmpfs _ => asks_pure _ trivial

theorem prepareDiskBind_asks {sha256 : Bytes → Bytes} (rootfs lower base overlayId target : Bytes) :
    Asks (Filing fun _ => True) E (prepareDiskBind sha256 rootfs lower base overlayId target)
      fun _ => True := by
  refine asks_bind (ensurePrivateDirectory_asks trivial _) fun _ _ => ?_
  refine asks_bind (ensureBindTarget_asks (fun _ _ => trivial) _) fun _ _ => ?_
  exact prepareBindWithRecursion_asks _ _ _

theorem prepareDiskBinds_asks {sha256 : Bytes → Bytes} (rootfs lower base : Bytes)
    (overlayId : Option Bytes) (targets : List Bytes)
    (h : E .panic ∨ (targets ≠ [] → overlayId.isSome)) :
    Asks (Filing fun _ => True) E (prepareDiskBinds sha256 rootfs lower base overlayId targets)
      fun _ => True := by
  unfold prepareDiskBinds
  split
  next => exact asks_pure _ trivial
  next hsome =>
    refine asks_bind (asks_expect _ (h.imp_right fun hid => hid hsome)) fun overlayId _ => ?_
    refine asks_bind (ensurePrivateDirectory_asks trivial _) fun _ _ => ?_
    exact asks_any (asks_mapEach fun target _ => prepareDiskBind_asks rootfs lower _ overlayId target)

theorem ensureRegularMountTarget_asks {target : Bytes} (h : area target) :
    Asks (Filing area) E (ensureRegularMountTarget target) fun _ => True := by
  have hcreate : Asks (Filing area) E (ensureRegularMountTarget.create target) fun _ => True :=
    asks_bind (asks_change _ rfl rfl h) fun _ _ => asks_any (asks_check _ _)
  refine asks_bind (lookUp_asks _ _) fun found _ => ?_
  split
  · exact asks_pure _ trivial
  · refine asks_bind (asks_change _ rfl rfl h) fun removed _ => ?_
    exact asks_bind (asks_check _ _) fun _ _ => hcreate
  · exact asks_refuse _
  · exact hcreate

end Files

end Linux

end Sandcamp.Sandrun
