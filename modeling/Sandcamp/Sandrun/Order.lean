import Sandcamp.Sandrun.Phases
import Sandcamp.Sandrun.Namespaces

/-!
# What the phases keep

Behind `make_mounts_private` what lies below the root of a run is secluded, and nobody else is in
its namespace. Every call of any process keeps this, whatever it is made of the mounts elsewhere.
-/

namespace Sandcamp.Sandrun
open Foundations Foundations.MountForest

section Order

variable {ι β : Type} {k k' : Namespaces ι β} {i who : ι} {seat : Seat} {phase : Phase}

/-- Nobody else is in the namespace. -/
def Sole (k : Namespaces ι β) (i : ι) (seat : Seat) : Prop :=
  ∀ j other, j ≠ i → k.seat j = some other → other.space ≠ seat.space

/-- The mount is a root of its namespace. -/
def AtTop (forest : MountForest β) (root : ℕ) : Prop :=
  ∃ mount, forest root = some mount ∧ mount.parent = none

structure Seated (forest : MountForest β) (seat : Seat) : Prop where
  root : ∃ mount, forest seat.root = some mount ∧ mount.space = seat.space
  cwd : ∃ mount, forest seat.cwd = some mount ∧ mount.space = seat.space

/-- Something lies on the root of this mount. -/
def Stacked (forest : MountForest β) (number : ℕ) : Prop :=
  ∃ child mount, forest child = some mount ∧ mount.parent = some number ∧ mount.onRoot = true

/-- What holds of a process in each phase. -/
def Fits (k : Namespaces ι β) (i : ι) (seat : Seat) : Phase → Prop
  | .other => True
  | .before => AtTop k.forest seat.root
  | .alone => AtTop k.forest seat.root ∧ Sole k i seat
  | .secluded => Secluded k.forest seat.space seat.root ∧ Sole k i seat
  | .pivoted => Secluded k.forest seat.space seat.root ∧ seat.cwd = seat.root ∧
      Stacked k.forest seat.root ∧ Sole k i seat
  | .gone => False

structure Orderly (p : ι → Phase) (k : Namespaces ι β) : Prop where
  placed : Placed k.forest
  seated : ∀ i seat, k.seat i = some seat → Seated k.forest seat
  fits : ∀ i seat, k.seat i = some seat → Fits k i seat (p i)

theorem atTop_stays {forest forest' : MountForest β} {root : ℕ} (h : AtTop forest root)
    (hstays : Stays forest forest' root) : AtTop forest' root := by
  obtain ⟨mount, hmount, hnone⟩ := h
  obtain ⟨mount', hmount', -, hparent⟩ := hstays mount hmount
  exact ⟨mount', hmount', hparent hnone⟩

theorem seated_stays {forest forest' : MountForest β} (h : Seated forest seat)
    (hroot : Stays forest forest' seat.root) (hcwd : Stays forest forest' seat.cwd) :
    Seated forest' seat := by
  obtain ⟨root, hfound, hspace⟩ := h.root
  obtain ⟨cwd, hfoundCwd, hspaceCwd⟩ := h.cwd
  obtain ⟨root', hroot', hsame, -⟩ := hroot root hfound
  obtain ⟨cwd', hcwd', hsameCwd, -⟩ := hcwd cwd hfoundCwd
  exact ⟨⟨root', hroot', hsame.trans hspace⟩, ⟨cwd', hcwd', hsameCwd.trans hspaceCwd⟩⟩

/-- The place a lookup leads to is in the namespace of the process. -/
theorem seated_below {forest : MountForest β} {place : ℕ} (hplaced : Placed forest)
    (h : Seated forest seat) (hbelow : Below forest seat.root place) :
    ∃ mount, forest place = some mount ∧ mount.space = seat.space := by
  obtain ⟨root, hroot, hspace⟩ := h.root
  obtain ⟨mount, hmount⟩ := below_found hbelow hroot
  exact ⟨mount, hmount, (below_space hplaced hbelow hroot hmount).trans hspace⟩

theorem top_space {forest : MountForest β} {number top : ℕ} (hplaced : Placed forest)
    (h : Top forest number top) {mount : Mount β} (hmount : forest number = some mount) :
    ∃ found, forest top = some found ∧ found.space = mount.space := by
  induction h generalizing mount with
  | self _ => exact ⟨mount, hmount, rfl⟩
  | upon hchild hparent _ _ ih =>
    obtain ⟨above, habove, hspace⟩ := hplaced _ _ _ hchild hparent
    obtain rfl := Option.some.inj (habove.symm.trans hmount)
    obtain ⟨found, hfound, hsame⟩ := ih hchild
    exact ⟨found, hfound, hsame.trans hspace.symm⟩

/-- A change of the root in one namespace moves nobody in another one. -/
theorem moved_elsewhere {forest : MountForest β} {mover : Seat} (new : ℕ)
    (h : Seated forest seat) (hmover : Seated forest mover) (hne : seat.space ≠ mover.space) :
    Seat.moved mover.root new seat = seat := by
  obtain ⟨root, hroot, hrootSpace⟩ := hmover.root
  have hother : ∀ number, (∃ mount, forest number = some mount ∧ mount.space = seat.space) →
      number ≠ mover.root := by
    rintro number ⟨mount, hmount, hspace⟩ rfl
    obtain rfl := Option.some.inj (hroot.symm.trans hmount)
    exact hne (hspace.symm.trans hrootSpace)
  rw [Seat.moved, if_neg (hother _ h.root), if_neg (hother _ h.cwd)]

/-- The top of a mount that something lies on is not that mount. -/
theorem top_of_stacked {forest : MountForest β} {space root top : ℕ}
    (h : Secluded forest space root) (hstacked : Stacked forest root) (htop : Top forest root top) :
    Below forest root top ∧ top ≠ root := by
  refine ⟨top_below htop, ?_⟩
  rintro rfl
  obtain ⟨mount, hmount, hnone⟩ := h.top
  cases htop with
  | self hself =>
    obtain ⟨child, found, hchild, hparent, hon⟩ := hstacked
    exact hself child found hchild ⟨hparent, hon⟩
  | upon hchild hparent _ habove =>
    have hbelow := top_below habove
    cases hbelow with
    | refl =>
      obtain rfl := Option.some.inj (hmount.symm.trans hchild)
      rw [hnone] at hparent
      cases hparent
    | child hfound hparent' _ =>
      obtain rfl := Option.some.inj (hmount.symm.trans hfound)
      rw [hnone] at hparent'
      cases hparent'

/-- A process that others' calls leave alone. -/
theorem fits_undisturbed (h : Fits k i seat phase)
    (hsole : Sole k i seat → Sole k' i seat)
    (htop : AtTop k.forest seat.root → AtTop k'.forest seat.root)
    (hundisturbed : Sole k i seat → Secluded k.forest seat.space seat.root →
      Undisturbed k.forest k'.forest seat.root) : Fits k' i seat phase := by
  cases phase with
  | other => trivial
  | before => exact htop h
  | alone => exact ⟨htop h.1, hsole h.2⟩
  | secluded =>
    obtain ⟨hsecluded, halone⟩ := h
    exact ⟨secluded_undisturbed hsecluded (hundisturbed halone hsecluded), hsole halone⟩
  | pivoted =>
    obtain ⟨hsecluded, hcwd, ⟨child, mount, hchild, hparent, hon⟩, halone⟩ := h
    have hsame := hundisturbed halone hsecluded
    refine ⟨secluded_undisturbed hsecluded hsame, hcwd, ⟨child, mount, ?_, hparent, hon⟩, hsole halone⟩
    rw [hsame.same child (.child hchild hparent .refl)]
    exact hchild
  | gone => exact h

/-! ### What `mount` does -/

section MountDone

variable {forest forest' : MountForest β} {place : ℕ} {flags : MountFlags}
  (hdone : MountDone forest seat place flags forest')
include hdone

theorem placed_mountDone (hplaced : Placed forest) : Placed forest' := by
  cases hdone with
  | remount _ hchanged => exact placed_changed hplaced hchanged
  | bind _ _ hmounted => exact placed_mounted hplaced hmounted
  | makePrivate _ _ _ hmade => exact placed_madePrivate hplaced hmade
  | regroup _ _ _ hregrouped => exact placed_regrouped hplaced hregrouped
  | new _ _ _ hmounted => exact placed_mounted hplaced hmounted

theorem stays_mountDone (number : ℕ) : Stays forest forest' number := by
  cases hdone with
  | remount _ hchanged => exact stays_changed hchanged number
  | bind _ _ hmounted => exact stays_of_kept (hmounted.kept number)
  | makePrivate _ _ _ hmade => exact stays_madePrivate hmade number
  | regroup _ _ _ hregrouped => exact stays_regrouped hregrouped number
  | new _ _ _ hmounted => exact stays_of_kept (hmounted.kept number)

theorem undisturbed_mountDone {space root : ℕ} {there : Mount β} (h : Secluded forest space root)
    (hplaced : Placed forest) (hthere : forest place = some there) (hspace : there.space ≠ space) :
    Undisturbed forest forest' root := by
  cases hdone with
  | remount _ hchanged => exact undisturbed_changed h hthere hspace hchanged
  | bind _ _ hmounted => exact undisturbed_mounted h hthere hspace hmounted
  | makePrivate _ _ _ hmade => exact undisturbed_madePrivate h hplaced hthere hspace hmade
  | regroup _ _ _ hregrouped => exact undisturbed_regrouped h hplaced hthere hspace hregrouped
  | new _ _ _ hmounted => exact undisturbed_mounted h hthere hspace hmounted

/-- A mount on what is secluded. -/
theorem secluded_mountDone (h : Secluded forest seat.space seat.root) (hplaced : Placed forest)
    (hbelow : Below forest seat.root place) (hflags : flags.regroups = false) :
    Secluded forest' seat.space seat.root ∧ OnlyIn forest forest' seat.space := by
  cases hdone with
  | remount _ hchanged =>
    obtain ⟨there, hthere⟩ := found_of_below h hbelow
    have honly := onlyIn_changed hthere hchanged
    rw [h.space place there hbelow hthere] at honly
    exact ⟨secluded_changed h hchanged, honly⟩
  | bind _ _ hmounted =>
    exact ⟨secluded_mounted h hplaced hbelow (fun _ hcopied => hcopied) hmounted,
      onlyIn_mounted h hbelow (fun _ hcopied => hcopied) hmounted⟩
  | makePrivate _ _ hprivate _ => simp [MountFlags.regroups, hprivate.1] at hflags
  | regroup _ _ hgroups _ => simp_all [MountFlags.regroups]
  | new _ _ _ hmounted =>
    exact ⟨secluded_mounted h hplaced hbelow (fun _ hcopied => hcopied.elim) hmounted,
      onlyIn_mounted h hbelow (fun _ hcopied => hcopied.elim) hmounted⟩

/-- The call of `make_mounts_private`. -/
theorem madePrivate_of_mountDone
    (hflags : flags = { MountFlags.none with msRec := true, msPrivate := true }) :
    MadePrivate forest place forest' := by
  subst hflags
  cases hdone with
  | remount hremount _ => cases hremount
  | bind _ hbind _ => cases hbind
  | makePrivate _ _ _ hmade => exact hmade
  | regroup _ _ hgroups _ => exact absurd ⟨rfl, rfl⟩ hgroups.1
  | new _ _ hgroups _ => exact absurd (Or.inl rfl) hgroups

end MountDone

/-! ### Every call keeps the order -/

theorem after_unchanging (phase : Phase) {o : Syscall} {reply : Reply o} (h : Unchanging o reply) :
    phase.after o reply = phase ∨ phase.after o reply = .other := by
  cases phase with
  | before =>
    cases o with
    | unshare =>
      obtain rfl : reply = false := h
      exact Or.inl rfl
    | _ => exact Or.inl rfl
  | alone =>
    cases o with
    | mount source target filesystem flags data =>
      obtain rfl : reply = false := h
      exact Or.inl rfl
    | _ => exact Or.inl rfl
  | secluded =>
    cases o with
    | pivotRoot =>
      obtain rfl : reply = false := h
      exact Or.inl rfl
    | exec program arguments =>
      cases reply
      · exact Or.inl rfl
      · exact Or.inr rfl
    | _ => exact Or.inl rfl
  | pivoted =>
    cases o with
    | detach =>
      obtain rfl : reply = false := h
      exact Or.inl rfl
    | _ => exact Or.inl rfl
  | other => exact Or.inl rfl
  | gone => exact Or.inl rfl

section Acting

variable [DecidableEq ι] {p : ι → Phase} (h : Orderly p k) (hseat : k.seat who = some seat)
include h hseat

theorem orderly_mount {source filesystem data : Option Bytes} {target : Bytes} {flags : MountFlags}
    {place : ℕ} {forest' : MountForest β}
    (hallowed : (p who).allowed (.mount source target filesystem flags data))
    (hleads : Locates k.forest seat target place)
    (hdone : MountDone k.forest seat place flags forest') :
    Orderly (Function.update p who
      ((p who).after (.mount source target filesystem flags data) true)) ⟨forest', k.seat⟩ := by
  have hwho := h.seated who seat hseat
  obtain ⟨there, hthere, hspace⟩ := seated_below h.placed hwho hleads.1
  refine ⟨placed_mountDone hdone h.placed, fun i other hother => ?_, fun i other hother => ?_⟩
  · exact seated_stays (h.seated i other hother) (stays_mountDone hdone _) (stays_mountDone hdone _)
  · have hfits := h.fits i other hother
    by_cases hi : i = who
    · subst hi
      obtain rfl := Option.some.inj (hseat.symm.trans hother)
      rw [Function.update_self]
      rcases phase_of_mount hallowed with hphase | ⟨hphase, hmount⟩ | ⟨hphase, hflags⟩
      · rw [hphase]
        trivial
      · rw [hphase] at hfits ⊢
        obtain ⟨⟨top, htop, hparent⟩, hsole⟩ := hfits
        obtain ⟨rfl, rfl, rfl, rfl, rfl⟩ := Syscall.mount.inj hmount
        obtain rfl := hleads.2 rfl
        have hsecluded := secluded_madePrivate h.placed htop hparent
          (madePrivate_of_mountDone hdone rfl)
        obtain ⟨root, hroot, hin⟩ := hwho.root
        obtain rfl := Option.some.inj (hroot.symm.trans htop)
        rw [hin] at hsecluded
        exact ⟨hsecluded, hsole⟩
      · rw [hphase] at hfits ⊢
        exact ⟨(secluded_mountDone hdone hfits.1 h.placed hleads.1 hflags).1, hfits.2⟩
    · rw [Function.update_of_ne hi]
      refine fits_undisturbed hfits id (fun htop => atTop_stays htop (stays_mountDone hdone _))
        fun hsole hsecluded => ?_
      refine undisturbed_mountDone hdone hsecluded h.placed hthere ?_
      rw [hspace]
      exact hsole who seat (Ne.symm hi) hseat

theorem orderly_unshare {space' : ℕ} {copy : ℕ → ℕ} {forest' : MountForest β}
    (hallowed : (p who).allowed .unshare)
    (hcopied : Copied k.forest seat.space space' copy forest') :
    Orderly (Function.update p who ((p who).after .unshare true))
      ⟨forest', Function.update k.seat who (some ⟨space', copy seat.root, copy seat.cwd⟩)⟩ := by
  have hstays : ∀ number, Stays k.forest forest' number := fun number =>
    stays_of_kept (hcopied.kept number)
  -- the new namespace was nobody's
  have hnew : ∀ i other, k.seat i = some other → other.space ≠ space' := by
    intro i other hother
    obtain ⟨root, hroot, hspace⟩ := (h.seated i other hother).root
    rw [← hspace]
    exact hcopied.unused _ root hroot
  have hwho := h.seated who seat hseat
  obtain ⟨root, hroot, hrootSpace⟩ := hwho.root
  obtain ⟨cwd, hcwd, hcwdSpace⟩ := hwho.cwd
  have hsole : Sole ⟨forest', Function.update k.seat who
      (some ⟨space', copy seat.root, copy seat.cwd⟩)⟩ who ⟨space', copy seat.root, copy seat.cwd⟩ := by
    intro j other hj hother
    have hold : Function.update k.seat who _ j = some other := hother
    rw [Function.update_of_ne hj] at hold
    exact hnew j other hold
  refine ⟨placed_copied h.placed hcopied, fun i other hother => ?_, fun i other hother => ?_⟩
  · have hcases : Function.update k.seat who _ i = some other := hother
    by_cases hi : i = who
    · subst hi
      rw [Function.update_self] at hcases
      obtain rfl := Option.some.inj hcases
      exact ⟨⟨_, (hcopied.copied _ root hroot hrootSpace).2, rfl⟩,
        ⟨_, (hcopied.copied _ cwd hcwd hcwdSpace).2, rfl⟩⟩
    · rw [Function.update_of_ne hi] at hcases
      exact seated_stays (h.seated i other hcases) (hstays _) (hstays _)
  · have hcases : Function.update k.seat who _ i = some other := hother
    by_cases hi : i = who
    · subst hi
      rw [Function.update_self] at hcases ⊢
      obtain rfl := Option.some.inj hcases
      have hfits := h.fits i seat hseat
      rcases phase_of_unshare hallowed with hphase | hphase
      · rw [hphase]
        trivial
      · rw [hphase] at hfits ⊢
        obtain ⟨top, htop, hparent⟩ := hfits
        obtain rfl := Option.some.inj (hroot.symm.trans htop)
        refine ⟨⟨_, (hcopied.copied _ root hroot hrootSpace).2, ?_⟩, hsole⟩
        rw [hparent]
        rfl
    · rw [Function.update_of_ne hi] at hcases ⊢
      refine fits_undisturbed (h.fits i other hcases) (fun hsole' => ?_)
        (fun htop => atTop_stays htop (hstays _)) fun _ hsecluded =>
          undisturbed_copied hsecluded h.placed hcopied
      intro j others hj hothers
      have hothers' : Function.update k.seat who _ j = some others := hothers
      by_cases hjwho : j = who
      · subst hjwho
        rw [Function.update_self] at hothers'
        obtain rfl := Option.some.inj hothers'
        exact (hnew i other hcases).symm
      · rw [Function.update_of_ne hjwho] at hothers'
        exact hsole' j others hj hothers'

theorem orderly_chdir {path : Bytes} {place : ℕ} (hallowed : (p who).allowed (.chdir path))
    (hleads : Locates k.forest seat path place) :
    Orderly (Function.update p who ((p who).after (.chdir path) true))
      ⟨k.forest, Function.update k.seat who (some { seat with cwd := place })⟩ := by
  have hwho := h.seated who seat hseat
  have hsole : ∀ i other, Sole k i other → Sole
      ⟨k.forest, Function.update k.seat who (some { seat with cwd := place })⟩ i other := by
    intro i other hsole j others hj hothers
    have hcases : Function.update k.seat who _ j = some others := hothers
    by_cases hjwho : j = who
    · subst hjwho
      rw [Function.update_self] at hcases
      obtain rfl := Option.some.inj hcases
      exact hsole j seat hj hseat
    · rw [Function.update_of_ne hjwho] at hcases
      exact hsole j others hj hcases
  refine ⟨h.placed, fun i other hother => ?_, fun i other hother => ?_⟩
  · have hcases : Function.update k.seat who _ i = some other := hother
    by_cases hi : i = who
    · subst hi
      rw [Function.update_self] at hcases
      obtain rfl := Option.some.inj hcases
      have hthere := seated_below h.placed hwho hleads.1
      exact ⟨hwho.root, hthere⟩
    · rw [Function.update_of_ne hi] at hcases
      exact h.seated i other hcases
  · have hcases : Function.update k.seat who _ i = some other := hother
    by_cases hi : i = who
    · subst hi
      rw [Function.update_self] at hcases ⊢
      obtain rfl := Option.some.inj hcases
      have hfits := h.fits i seat hseat
      rcases phase_of_chdir hallowed with hphase | hphase
      · rw [hphase]
        trivial
      · rw [hphase] at hfits ⊢
        exact ⟨hfits.1, hsole i seat hfits.2⟩
    · rw [Function.update_of_ne hi] at hcases ⊢
      exact fits_undisturbed (h.fits i other hcases) (hsole i other) id fun _ _ =>
        undisturbed_refl k.forest other.root

theorem orderly_pivotRoot {forest' : MountForest β} (hallowed : (p who).allowed .pivotRoot)
    (hpivoted : Pivoted k.forest seat.root seat.cwd forest') :
    Orderly (Function.update p who ((p who).after .pivotRoot true))
      ⟨forest', fun i => (k.seat i).map (Seat.moved seat.root seat.cwd)⟩ := by
  have hwho := h.seated who seat hseat
  obtain ⟨root, hroot, hrootSpace⟩ := hwho.root
  obtain ⟨cwd, hcwd, hcwdSpace⟩ := hwho.cwd
  -- whoever is moved is in the same namespace
  have hmoved : ∀ number space, (∃ mount, k.forest number = some mount ∧ mount.space = space) →
      ∃ mount, forest' (if number = seat.root then seat.cwd else number) = some mount ∧
        mount.space = space := by
    rintro number space ⟨mount, hmount, hspace⟩
    by_cases hold : number = seat.root
    · subst hold
      obtain rfl := Option.some.inj (hroot.symm.trans hmount)
      obtain ⟨left, hleft, hsame⟩ := found_pivoted hpivoted hcwd
      rw [if_pos rfl]
      exact ⟨left, hleft, hsame.trans (hcwdSpace.trans (hrootSpace.symm.trans hspace))⟩
    · obtain ⟨left, hleft, hsame⟩ := found_pivoted hpivoted hmount
      rw [if_neg hold]
      exact ⟨left, hleft, hsame.trans hspace⟩
  have hsole : ∀ i other other', other'.space = other.space → Sole k i other → Sole
      ⟨forest', fun i => (k.seat i).map (Seat.moved seat.root seat.cwd)⟩ i other' := by
    intro i other other' hsame hsole j others hj hothers
    obtain ⟨old, hold, rfl⟩ := Option.map_eq_some_iff.mp hothers
    rw [hsame]
    exact hsole j old hj hold
  refine ⟨placed_pivoted h.placed hpivoted, fun i other hother => ?_, fun i other hother => ?_⟩
  · obtain ⟨old, hold, rfl⟩ := Option.map_eq_some_iff.mp hother
    have hseated := h.seated i old hold
    exact ⟨hmoved _ _ hseated.root, hmoved _ _ hseated.cwd⟩
  · obtain ⟨old, hold, rfl⟩ := Option.map_eq_some_iff.mp hother
    have hfits := h.fits i old hold
    by_cases hi : i = who
    · subst hi
      rw [Function.update_self]
      obtain rfl := Option.some.inj (hseat.symm.trans hold)
      rcases phase_of_pivotRoot hallowed with hphase | hphase
      · rw [hphase]
        trivial
      · rw [hphase] at hfits ⊢
        obtain ⟨lowered, -, -, hlowered⟩ := hpivoted.lowered
        have hnew : (Seat.moved seat.root seat.cwd seat).root = seat.cwd := if_pos rfl
        have hthere : (Seat.moved seat.root seat.cwd seat).cwd = seat.cwd := if_neg hpivoted.other
        refine ⟨?_, hthere.trans hnew.symm, ?_, hsole i seat _ rfl hfits.2⟩
        · rw [hnew]
          exact secluded_pivoted hfits.1 hpivoted
        · rw [hnew]
          exact ⟨seat.root, _, hlowered, rfl, rfl⟩
    · rw [Function.update_of_ne hi]
      have hseated := h.seated i old hold
      by_cases hspace : old.space = seat.space
      -- nobody is there that is alone
      · have hnot : ¬Sole k i old := fun halone => halone who seat (Ne.symm hi) hseat hspace.symm
        cases hphase : p i with
        | other => trivial
        | before =>
          rw [hphase] at hfits
          by_cases hsame : old.root = seat.root
          · obtain ⟨lifted, -, -, hlifted⟩ := hpivoted.lifted
            have hnew : (Seat.moved seat.root seat.cwd old).root = seat.cwd := if_pos hsame
            rw [← hnew] at hlifted
            exact ⟨_, hlifted, rfl⟩
          · have hstay : (Seat.moved seat.root seat.cwd old).root = old.root := if_neg hsame
            have htop := atTop_stays hfits (stays_pivoted hpivoted hsame)
            rw [← hstay] at htop
            exact htop
        | alone =>
          rw [hphase] at hfits
          exact absurd hfits.2 hnot
        | secluded =>
          rw [hphase] at hfits
          exact absurd hfits.2 hnot
        | pivoted =>
          rw [hphase] at hfits
          exact absurd hfits.2.2.2 hnot
        | gone =>
          rw [hphase] at hfits
          exact hfits.elim
      · have hrootNe : old.root ≠ seat.root := by
          obtain ⟨mount, hmount, hin⟩ := hseated.root
          intro heq
          rw [heq] at hmount
          obtain rfl := Option.some.inj (hroot.symm.trans hmount)
          exact hspace (hin.symm.trans hrootSpace)
        have hsame := moved_elsewhere seat.cwd hseated hwho hspace
        rw [hsame]
        exact fits_undisturbed hfits (hsole i old old rfl)
          (fun htop => atTop_stays htop (stays_pivoted hpivoted hrootNe)) fun _ hsecluded =>
            undisturbed_pivoted hsecluded h.placed hroot
              (hrootSpace.trans_ne (Ne.symm hspace)) hpivoted

theorem orderly_detach {top : ℕ} {forest' : MountForest β} (hallowed : (p who).allowed .detach)
    (htop : Top k.forest seat.cwd top) (hdetached : Detached k.forest top forest')
    (hleft : ∀ i other, k.seat i = some other →
      (forest' other.root).isSome ∧ (forest' other.cwd).isSome) :
    Orderly (Function.update p who ((p who).after .detach true)) ⟨forest', k.seat⟩ := by
  obtain ⟨cwd, hcwd, hcwdSpace⟩ := (h.seated who seat hseat).cwd
  obtain ⟨taken, htaken, htakenSpace⟩ := top_space h.placed htop hcwd
  refine ⟨hdetached.placed, fun i other hother => ?_, fun i other hother => ?_⟩
  · obtain ⟨hroot, hthere⟩ := hleft i other hother
    exact seated_stays (h.seated i other hother) (stays_detached hdetached hroot)
      (stays_detached hdetached hthere)
  · have hfits := h.fits i other hother
    by_cases hi : i = who
    · subst hi
      rw [Function.update_self]
      obtain rfl := Option.some.inj (hseat.symm.trans hother)
      rcases phase_of_detach hallowed with hphase | hphase
      · rw [hphase]
        trivial
      · rw [hphase] at hfits ⊢
        obtain ⟨hsecluded, hsame, hstacked, hsole⟩ := hfits
        rw [hsame] at htop
        obtain ⟨hbelow, hne⟩ := top_of_stacked hsecluded hstacked htop
        exact ⟨secluded_detached hsecluded hbelow hne hdetached, hsole⟩
    · rw [Function.update_of_ne hi]
      refine fits_undisturbed hfits id
        (fun hat => atTop_stays hat (stays_detached hdetached (hleft i other hother).1))
        fun hsole hsecluded => undisturbed_detached hsecluded h.placed htaken ?_ hdetached
      rw [htakenSpace, hcwdSpace]
      exact hsole who seat (Ne.symm hi) hseat

end Acting

section Any

variable [DecidableEq ι] {p : ι → Phase} (h : Orderly p k)
include h

theorem orderly_nothing {o : Syscall} {reply : Reply o} (hunchanging : Unchanging o reply) :
    Orderly (Function.update p who ((p who).after o reply)) k := by
  refine ⟨h.placed, h.seated, fun i other hother => ?_⟩
  by_cases hi : i = who
  · subst hi
    rw [Function.update_self]
    rcases after_unchanging (p i) hunchanging with hsame | hend
    · rw [hsame]
      exact h.fits i other hother
    · rw [hend]
      trivial
  · rw [Function.update_of_ne hi]
    exact h.fits i other hother

theorem orderly_effect {o : Syscall} {reply : Reply o} (hallowed : (p who).allowed o)
    (heffect : Namespaces.Effect who k o reply k') :
    Orderly (Function.update p who ((p who).after o reply)) k' := by
  cases heffect with
  | nothing hunchanging => exact orderly_nothing h hunchanging
  | unshare hseat hcopied => exact orderly_unshare h hseat hallowed hcopied
  | mount hseat hleads hdone => exact orderly_mount h hseat hallowed hleads hdone
  | chdir hseat hleads => exact orderly_chdir h hseat hallowed hleads
  | pivotRoot hseat hpivoted => exact orderly_pivotRoot h hseat hallowed hpivoted
  | detach hseat htop hdetached hleft => exact orderly_detach h hseat hallowed htop hdetached hleft

theorem orderly_leave (hleave : Namespaces.Leave who k k') :
    Orderly (Function.update p who .gone) k' := by
  have hsole : ∀ (forest' : MountForest β) i other, Sole k i other →
      Sole ⟨forest', Function.update k.seat who none⟩ i other := by
    intro forest' i other hsole j others hj hothers
    have hcases : Function.update k.seat who none j = some others := hothers
    by_cases hjwho : j = who
    · subst hjwho
      rw [Function.update_self] at hcases
      cases hcases
    · rw [Function.update_of_ne hjwho] at hcases
      exact hsole j others hj hcases
  have hleft : ∀ i other, Function.update k.seat who none i = some other →
      i ≠ who ∧ k.seat i = some other := by
    intro i other hother
    by_cases hi : i = who
    · subst hi
      rw [Function.update_self] at hother
      cases hother
    · rw [Function.update_of_ne hi] at hother
      exact ⟨hi, hother⟩
  cases hleave with
  | stays =>
    refine ⟨h.placed, fun i other hother => h.seated i other (hleft i other hother).2,
      fun i other hother => ?_⟩
    obtain ⟨hi, hother⟩ := hleft i other hother
    rw [Function.update_of_ne hi]
    exact fits_undisturbed (h.fits i other hother) (hsole _ i other) id fun _ _ =>
      undisturbed_refl k.forest other.root
  | @dissolves seat forest' hseat hlast hdissolved =>
    have hstays : ∀ i other number, i ≠ who → k.seat i = some other →
        (∃ mount, k.forest number = some mount ∧ mount.space = other.space) →
          Stays k.forest forest' number := by
      rintro i other number hi hother ⟨found, hfound, hspace⟩
      refine stays_of_kept fun mount hmount => hdissolved.kept number mount hmount ?_
      obtain rfl := Option.some.inj (hfound.symm.trans hmount)
      rw [hspace]
      exact hlast i other hi hother
    refine ⟨placed_dissolved h.placed hdissolved, fun i other hother => ?_, fun i other hother => ?_⟩
    · obtain ⟨hi, hother⟩ := hleft i other hother
      have hseated := h.seated i other hother
      exact seated_stays hseated (hstays i other _ hi hother hseated.root)
        (hstays i other _ hi hother hseated.cwd)
    · obtain ⟨hi, hother⟩ := hleft i other hother
      rw [Function.update_of_ne hi]
      have hseated := h.seated i other hother
      exact fits_undisturbed (h.fits i other hother) (hsole _ i other)
        (fun htop => atTop_stays htop (hstays i other _ hi hother hseated.root))
        fun _ hsecluded => undisturbed_dissolved hsecluded hdissolved
          (Ne.symm (hlast i other hi hother))

end Any

/-- What the calls of all processes keep. -/
def isolation (ι β : Type) [DecidableEq ι] :
    Arena.Watch (Namespaces.arena : Arena ι (Namespaces ι β) Syscall Reply) Phase where
  monitor := fun _ => phases
  inv := Orderly
  gone := .gone
  act _ _ _ _ _ _ h hallowed heffect := orderly_effect h hallowed heffect
  leave _ _ _ _ h hleave := orderly_leave h hleave

end Order

end Sandcamp.Sandrun
