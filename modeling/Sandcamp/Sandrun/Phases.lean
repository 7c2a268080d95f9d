import Sandcamp.Sandrun.Footprint

/-!
# The phases of a run (linux.rs:90-136, 1178-1199, 1343-1361)

`run` first gets a mount namespace of its own and makes every mount in it private; then it mounts,
changes its root, takes off the old one and calls `exec`. The monitor says which calls belong to
which phase. Any other process may make any calls.
-/

namespace Sandcamp.Sandrun
open Foundations

/-- The calls that concern namespaces, mounts or the working directory. -/
def Syscall.namespaced : Syscall → Bool
  | .unshare | .mount .. | .chdir _ | .pivotRoot | .detach => true
  | _ => false

/-- How far a run is; `other` is any process else, such as the program that takes its place. -/
inductive Phase where
  | other
  | before
  | alone
  | secluded
  /-- The old root lies on the new one. -/
  | pivoted
  | gone
  deriving DecidableEq

/-- The call changes how mounts propagate. -/
def MountFlags.regroups (flags : MountFlags) : Bool :=
  flags.msPrivate || flags.msShared || flags.msSlave

/-- `mount(NULL, "/", NULL, MS_REC | MS_PRIVATE, NULL)`. -/
def privateMount : Syscall :=
  .mount none (lit "/") none { MountFlags.none with msRec := true, msPrivate := true } none

def Phase.allowed : Phase → Syscall → Prop
  | .other, _ => True
  | .before, o => o.namespaced = false ∨ o = .unshare
  | .alone, o => o = privateMount
  | .secluded, .mount _ _ _ flags _ => flags.regroups = false
  | .secluded, o => o ≠ .unshare ∧ o ≠ .detach
  | .pivoted, o => o = .detach
  | .gone, _ => False

def Phase.after : Phase → (o : Syscall) → Reply o → Phase
  | .before, .unshare, true => .alone
  | .alone, .mount .., true => .secluded
  | .secluded, .pivotRoot, true => .pivoted
  | .pivoted, .detach, true => .secluded
  | .secluded, .exec .., true => .other
  | phase, _, _ => phase

def phases : Monitor Phase Syscall Reply := ⟨Phase.allowed, Phase.after⟩

/-! ### Where a call is allowed -/

section Allowed

variable {phase : Phase}

theorem phase_of_unshare (h : phase.allowed .unshare) : phase = .other ∨ phase = .before := by
  cases phase with
  | other => exact Or.inl rfl
  | before => exact Or.inr rfl
  | alone => cases h
  | secluded => exact absurd rfl h.1
  | pivoted => cases h
  | gone => cases h

theorem phase_of_mount {source filesystem data : Option Bytes} {target : Bytes}
    {flags : MountFlags} (h : phase.allowed (.mount source target filesystem flags data)) :
    phase = .other ∨ phase = .alone ∧ .mount source target filesystem flags data = privateMount ∨
      phase = .secluded ∧ flags.regroups = false := by
  cases phase with
  | other => exact Or.inl rfl
  | before =>
    rcases h with hlocal | hunshare
    · cases hlocal
    · cases hunshare
  | alone => exact Or.inr (Or.inl ⟨rfl, h⟩)
  | secluded => exact Or.inr (Or.inr ⟨rfl, h⟩)
  | pivoted => cases h
  | gone => cases h

theorem phase_of_chdir {path : Bytes} (h : phase.allowed (.chdir path)) :
    phase = .other ∨ phase = .secluded := by
  cases phase with
  | other => exact Or.inl rfl
  | before =>
    rcases h with hlocal | hunshare
    · cases hlocal
    · cases hunshare
  | alone => cases h
  | secluded => exact Or.inr rfl
  | pivoted => cases h
  | gone => cases h

theorem phase_of_pivotRoot (h : phase.allowed .pivotRoot) : phase = .other ∨ phase = .secluded := by
  cases phase with
  | other => exact Or.inl rfl
  | before =>
    rcases h with hlocal | hunshare
    · cases hlocal
    · cases hunshare
  | alone => cases h
  | secluded => exact Or.inr rfl
  | pivoted => cases h
  | gone => cases h

theorem phase_of_detach (h : phase.allowed .detach) : phase = .other ∨ phase = .pivoted := by
  cases phase with
  | other => exact Or.inl rfl
  | before =>
    rcases h with hlocal | hunshare
    · cases hlocal
    · cases hunshare
  | alone => cases h
  | secluded => exact absurd rfl h.2
  | pivoted => exact Or.inr rfl
  | gone => cases h

/-- Where a call of a run leads to. -/
theorem after_running {o : Syscall} {reply : Reply o} (hallowed : phase.allowed o)
    (hrunning : phase ≠ .other ∧ phase ≠ .gone)
    (hreplaced : ∀ program arguments, (⟨o, reply⟩ : Event) ≠ ⟨.exec program arguments, true⟩) :
    (phase.after o reply ≠ .other ∧ phase.after o reply ≠ .gone) ∧
      ((phase = .secluded ∨ phase = .pivoted) ∨ (⟨o, reply⟩ : Event) = ⟨privateMount, true⟩ →
        phase.after o reply = .secluded ∨ phase.after o reply = .pivoted) := by
  cases phase with
  | other => exact absurd rfl hrunning.1
  | gone => exact absurd rfl hrunning.2
  | before =>
    refine ⟨?_, ?_⟩
    · cases o with
      | unshare => cases reply <;> exact ⟨nofun, nofun⟩
      | _ => exact ⟨nofun, nofun⟩
    · rintro (hphase | heq)
      · rcases hphase with hphase | hphase <;> cases hphase
      · cases heq
        rcases hallowed with hlocal | hunshare
        · cases hlocal
        · cases hunshare
  | alone =>
    obtain rfl : o = privateMount := hallowed
    cases reply with
    | true => exact ⟨⟨nofun, nofun⟩, fun _ => Or.inl rfl⟩
    | false =>
      refine ⟨⟨nofun, nofun⟩, ?_⟩
      rintro (hphase | heq)
      · rcases hphase with hphase | hphase <;> cases hphase
      · cases heq
  | secluded =>
    cases o with
    | pivotRoot => cases reply <;> exact ⟨⟨nofun, nofun⟩, fun _ => by simp [Phase.after]⟩
    | exec program arguments =>
      cases reply with
      | true => exact absurd rfl (hreplaced program arguments)
      | false => exact ⟨⟨nofun, nofun⟩, fun _ => Or.inl rfl⟩
    | _ => exact ⟨⟨nofun, nofun⟩, fun _ => Or.inl rfl⟩
  | pivoted =>
    obtain rfl : o = .detach := hallowed
    cases reply with
    | true => exact ⟨⟨nofun, nofun⟩, fun _ => Or.inl rfl⟩
    | false => exact ⟨⟨nofun, nofun⟩, fun _ => Or.inr rfl⟩

end Allowed

/-! ### Every call of a run is in its phase -/

namespace Linux
open Thread

/-- A call of a secluded run that leaves it secluded. -/
def Tame (o : Syscall) : Prop :=
  phases.allowed .secluded o ∧ ∀ reply, phases.after .secluded o reply = .secluded

variable {area : Bytes → Prop} {E : Failure RuntimeError → Prop} {α : Type}
  {sha256 : Bytes → Bytes}

theorem tame_of_filing {o : Syscall} (h : Filing area o) : Tame o := by
  have hquiet := h.quiet
  cases o with
  | unshare | mount | chdir | pivotRoot | detach | credential | ids | exec => cases hquiet
  | _ => exact ⟨⟨nofun, nofun⟩, fun _ => rfl⟩

theorem tame_mount {source filesystem data : Option Bytes} {target : Bytes} {flags : MountFlags}
    (h : flags.regroups = false) : Tame (.mount source target filesystem flags data) :=
  ⟨h, fun _ => rfl⟩

theorem asks_tame {Q : α → Prop} {t : Linux α} (h : Asks (Filing fun _ => True) E t Q) :
    Asks Tame E t Q :=
  asks_mono h (fun _ ho => tame_of_filing ho) (fun _ he => he) fun _ ha => ha

section Mounts

variable [Refuses E]

theorem mountRaw_tame (source : Option Bytes) (target : Bytes) (filesystem : Option Bytes)
    {flags : MountFlags} (data : Option Bytes) (operation : String)
    (h : flags.regroups = false) :
    Asks Tame E (mountRaw source target filesystem flags data operation) fun _ => True := by
  have hoption : ∀ value : Option Bytes,
      Asks Tame E (optionalCString operation value) fun _ => True := by
    intro value
    cases value with
    | none => exact asks_pure _ trivial
    | some value => exact asks_any (asks_check _ _)
  refine asks_bind (hoption source) fun _ _ => ?_
  refine asks_bind (asks_check _ _) fun _ _ => ?_
  refine asks_bind (hoption filesystem) fun _ _ => ?_
  refine asks_bind (hoption data) fun _ _ => ?_
  exact asks_bind (asks_perform _ (tame_mount h)) fun _ _ => asks_any (asks_check _ _)

theorem applyMount_tame (operation : MountOperation) :
    Asks Tame E (applyMount operation) fun _ => True := by
  have hreadonly : ∀ source target : Bytes,
      Asks Tame E (bindFileReadonly source target) fun _ => True := fun source target =>
    asks_bind (mountRaw_tame _ _ _ _ _ rfl) fun _ _ => mountRaw_tame _ _ _ _ _ rfl
  cases operation with
  | proc target => exact mountRaw_tame _ _ _ _ _ rfl
  | tmpfs target mode => exact mountRaw_tame _ _ _ _ _ rfl
  | bind prepared =>
    exact asks_bind (mountRaw_tame _ _ _ _ _ rfl) fun _ _ =>
      asks_onlyIf _ (mountRaw_tame _ _ _ _ _ rfl)
  | dnsFiles target resolvConf hosts =>
    refine asks_bind (asks_tame (ensureRegularMountTarget_asks trivial)) fun _ _ => ?_
    refine asks_bind (asks_tame (ensureRegularMountTarget_asks trivial)) fun _ _ => ?_
    exact asks_bind (hreadonly _ _) fun _ _ => hreadonly _ _

theorem prepareOverlayBase_tame (device : Option Bytes) :
    Asks Tame E (prepareOverlayBase device) fun _ => True := by
  cases device with
  | none => exact asks_pure _ trivial
  | some device =>
    refine asks_bind (asks_tame (canonicalize_asks _ _)) fun device _ => ?_
    refine asks_bind (asks_tame (metadata_asks _ _)) fun found _ => ?_
    refine asks_bind (asks_check _ _) fun _ _ => ?_
    refine asks_bind (asks_tame (ensurePrivateDirectory_asks trivial _)) fun _ _ => ?_
    refine asks_bind (mountRaw_tame _ _ _ _ _ rfl) fun _ _ => ?_
    exact asks_bind (asks_tame (ensurePrivateDirectory_asks trivial _)) fun _ _ =>
      asks_pure _ trivial

theorem mountOverlayRootfs_tame (lower base : Bytes) (overlayId : Option Bytes) :
    Asks Tame E (mountOverlayRootfs sha256 lower base overlayId) fun _ => True := by
  refine asks_bind (asks_check _ _) fun _ _ => ?_
  refine asks_bind (asks_tame (ensurePrivateDirectory_asks trivial _)) fun _ _ => ?_
  refine asks_bind (asks_tame (overlayPaths_asks sha256 lower overlayId fun _ _ => trivial))
    fun layers _ => ?_
  refine asks_bind (asks_tame (ensureOverlayUpperDirectory_asks trivial lower)) fun _ _ => ?_
  exact asks_bind (mountRaw_tame _ _ _ _ _ rfl) fun _ _ => asks_pure _ trivial

theorem prepare_tame (config : Config) (lower : Bytes) (h : E .panic ∨ config.Furnished) :
    Asks Tame E (prepare sha256 config lower) fun _ => True := by
  refine asks_bind (prepareOverlayBase_tame _) fun base _ => ?_
  refine asks_bind (mountOverlayRootfs_tame _ _ _) fun rootfs _ => ?_
  refine asks_bind (asks_tame (asks_each fun bind _ =>
    ensureBindTarget_asks (fun _ _ => trivial) bind)) fun _ _ => ?_
  refine asks_bind (asks_onlyIf _ (asks_tame (ensureBindTarget_asks (fun _ _ => trivial) _)))
    fun _ _ => ?_
  refine asks_bind (asks_tame (prepareDiskBinds_asks _ _ _ _ _
    (h.imp_right Config.Furnished.overlayId))) fun disk _ => ?_
  refine asks_bind (asks_tame (prepareWorkdir_asks _ _)) fun _ _ => ?_
  refine asks_bind (asks_expect _ (h.imp_right Config.Furnished.command)) fun executable _ => ?_
  refine asks_bind (asks_tame (prepareExecutable_asks _ _)) fun _ _ => ?_
  refine asks_bind (asks_tame (validateResolvedMountTargets_asks _ _)) fun _ _ => ?_
  exact asks_bind (asks_tame (prepareMounts_asks _ _)) fun operations _ => asks_pure _ trivial

theorem changeDirectoryOuter_tame (path : Bytes) (operation : String) :
    Asks Tame E (changeDirectoryOuter path operation) fun _ => True := by
  refine asks_bind (asks_check _ _) fun _ _ => ?_
  exact asks_bind (asks_perform _ ⟨⟨nofun, nofun⟩, fun _ => rfl⟩) fun _ _ =>
    asks_any (asks_check _ _)

theorem applyIdentity_tame (identity : UserIdentity) :
    Asks Tame E (applyIdentity identity) fun _ => True := by
  have hcredential : ∀ request, Asks Tame E (credential request) fun _ => True := fun request =>
    asks_bind (asks_perform _ ⟨⟨nofun, nofun⟩, fun _ => rfl⟩) fun _ _ => asks_any (asks_check _ _)
  refine asks_bind (asks_onlyIf _ (hcredential _)) fun _ _ => ?_
  refine asks_bind (hcredential _) fun _ _ => ?_
  refine asks_bind (hcredential _) fun _ _ => ?_
  refine asks_bind (hcredential _) fun _ _ => ?_
  refine asks_bind (asks_onlyIf _ (asks_bind (hcredential _) fun _ _ => hcredential _)) fun _ _ => ?_
  exact asks_bind (asks_perform _ ⟨⟨nofun, nofun⟩, fun _ => rfl⟩) fun _ _ =>
    asks_any (asks_check _ _)

end Mounts

/-! ### The phases of a run -/

theorem meets_tame {Q : α → Prop} {t : Linux α} (ht : Asks Tame Unchecked t Q) :
    Meets phases t .secluded fun a phase => phase = .secluded ∧ Q a :=
  meets_of_asks ht fun _ ho => ho

/-- Before it leaves the namespace a run works on files only. -/
theorem meets_before {Q : α → Prop} {t : Linux α} (ht : Asks (Filing fun _ => True) Unchecked t Q) :
    Meets phases t .before fun a phase => phase = .before ∧ Q a := by
  refine meets_of_asks ht fun o ho => ?_
  have hquiet := ho.quiet
  cases o with
  | unshare | mount | chdir | pivotRoot | detach | credential | ids | exec => cases hquiet
  | _ => exact ⟨Or.inl rfl, fun _ => rfl⟩

theorem meets_call {phase : Phase} (o : Syscall) (h : phase.allowed o) :
    Meets phases (syscall o) phase fun reply next => next = phase.after o reply :=
  meets_perform o h

theorem launch_phases (config : Config) (identity : Option UserIdentity) (rootfs : Bytes)
    (operations : List MountOperation) :
    Meets phases (launch config identity rootfs operations) .secluded
      fun _ phase => phase = .other := by
  refine meets_bind (meets_tame (asks_each fun operation _ => applyMount_tame operation)) ?_
  rintro _ _ ⟨rfl, -⟩
  have henter : Meets phases (enterRootfs rootfs) .secluded fun _ phase => phase = .secluded := by
    refine meets_bind (meets_tame (changeDirectoryOuter_tame _ _)) ?_
    rintro _ _ ⟨rfl, -⟩
    refine meets_bind (meets_call .pivotRoot ⟨nofun, nofun⟩) ?_
    rintro pivoted _ rfl
    refine meets_bind (meets_check _ _) ?_
    rintro _ _ ⟨rfl, rfl⟩
    refine meets_bind (meets_call .detach rfl) ?_
    rintro detached _ rfl
    refine meets_bind (meets_check _ _) ?_
    rintro _ _ ⟨rfl, rfl⟩
    exact meets_post (meets_tame (changeDirectoryOuter_tame _ _)) fun _ _ h => h.1
  refine meets_bind henter ?_
  rintro _ _ rfl
  refine meets_bind (meets_tame (changeDirectoryOuter_tame _ _)) ?_
  rintro _ _ ⟨rfl, -⟩
  refine meets_bind (meets_tame (asks_each fun identity _ => applyIdentity_tame identity)) ?_
  rintro _ _ ⟨rfl, -⟩
  refine meets_bind (meets_tame (asks_expect _ (Or.inl trivial))) ?_
  rintro program _ ⟨rfl, -⟩
  refine meets_bind (meets_call (.exec program config.command.tail) ⟨nofun, nofun⟩) ?_
  rintro replaced _ rfl
  refine meets_post (meets_check _ _) ?_
  rintro _ _ ⟨rfl, rfl⟩
  rfl

theorem run_phases (sha256 : Bytes → Bytes) (config : Config) :
    Meets phases (run sha256 config) .before fun _ phase => phase = .other := by
  refine meets_bind (meets_before (prepareRootfs_asks _)) ?_
  rintro lower _ ⟨rfl, -⟩
  refine meets_bind (meets_before (resolveIdentity_asks _ _)) ?_
  rintro identity _ ⟨rfl, -⟩
  refine meets_bind (meets_before (prepareBindSources_asks fun _ _ _ _ => trivial)) ?_
  rintro _ _ ⟨rfl, -⟩
  have hunshare : Meets phases unshareMountNamespace .before fun _ phase => phase = .alone := by
    refine meets_bind (meets_call .unshare (Or.inr rfl)) ?_
    rintro unshared _ rfl
    refine meets_post (meets_check _ _) ?_
    rintro _ _ ⟨rfl, rfl⟩
    rfl
  have hprivate : Meets phases makeMountsPrivate .alone fun _ phase => phase = .secluded := by
    have hnone : Meets phases (optionalCString "mount_propagation_private_failed" none) .alone
        fun _ phase => phase = .alone := rfl
    refine meets_bind hnone ?_
    rintro _ _ rfl
    refine meets_bind (meets_check _ _) ?_
    rintro _ _ ⟨rfl, -⟩
    refine meets_bind hnone ?_
    rintro _ _ rfl
    refine meets_bind hnone ?_
    rintro _ _ rfl
    refine meets_bind (meets_call privateMount (show Phase.alone.allowed privateMount from rfl)) ?_
    rintro mounted _ rfl
    refine meets_post (meets_check _ _) ?_
    rintro _ _ ⟨rfl, rfl⟩
    rfl
  refine meets_bind hunshare ?_
  rintro _ _ rfl
  refine meets_bind hprivate ?_
  rintro _ _ rfl
  refine meets_bind (meets_tame (prepare_tame config lower (Or.inl trivial))) ?_
  rintro result _ ⟨rfl, -⟩
  exact launch_phases config identity result.1 result.2

/-- A process that may do anything. -/
theorem meets_other {Q : α → Phase → Prop} {t : Linux α} (hQ : ∀ a, Q a .other) :
    Meets phases t .other Q := by
  induction t with
  | pure a => exact hQ a
  | fail e => trivial
  | op o next ih => exact ⟨trivial, fun answer => ih answer⟩

end Linux

end Sandcamp.Sandrun
