import Sandcamp.Sandrun.Order

/-!
# A run changes no mount that others see

Other processes may make any of these calls, other runs of sandrun among them: what a run mounts
stays in its namespace, and nothing that is mounted or taken off elsewhere comes into it. Calls that
`linux.rs` does not make, and the removal of a file that carries a mount elsewhere, are left out.
-/

namespace Sandcamp.Sandrun
open Foundations Foundations.MountForest

/-! ### Runs among other processes -/

section Among

variable {ι β : Type} [DecidableEq ι] {k k' : Namespaces ι β} {p : ι → Phase} {who : ι}

/-- Nothing changes for anybody else. -/
structure Uninvolved (who : ι) (k k' : Namespaces ι β) : Prop where
  seats : ∀ other seat, other ≠ who → k.seat other = some seat → k'.seat other = some seat
  mounts : ∀ other seat, other ≠ who → k.seat other = some seat → ∀ number mount,
    mount.space = seat.space → (k.forest number = some mount ↔ k'.forest number = some mount)

omit [DecidableEq ι] in
theorem uninvolved_of_onlyIn {space : ℕ} (hseats : ∀ other seat, other ≠ who →
      k.seat other = some seat → k'.seat other = some seat)
    (honly : OnlyIn k.forest k'.forest space)
    (helse : ∀ other seat, other ≠ who → k.seat other = some seat → seat.space ≠ space) :
    Uninvolved who k k' := by
  refine ⟨hseats, fun other seat hother hseat number mount hspace => ?_⟩
  have hne : mount.space ≠ space := hspace.trans_ne (helse other seat hother hseat)
  exact ⟨fun h => honly.kept number mount h hne, fun h => honly.only number mount h hne⟩

theorem seats_update {seat : Option Seat} (forest' : MountForest β) : ∀ other old, other ≠ who →
    k.seat other = some old →
      (⟨forest', Function.update k.seat who seat⟩ : Namespaces ι β).seat other = some old :=
  fun _ _ hother hold => (Function.update_of_ne hother _ _).trans hold

/-- What a run does is in a namespace where nobody else is. -/
theorem uninvolved_effect (h : Orderly p k) (hrun : p who ≠ .other) {o : Syscall} {reply : Reply o}
    (hallowed : (p who).allowed o) (heffect : Namespaces.Effect who k o reply k') :
    Uninvolved who k k' := by
  cases heffect with
  | nothing _ => exact ⟨fun _ _ _ hseat => hseat, fun _ _ _ _ _ _ _ => Iff.rfl⟩
  | unshare hseat hcopied =>
    refine uninvolved_of_onlyIn (seats_update _) (onlyIn_copied hcopied) fun other old _ hold => ?_
    obtain ⟨root, hroot, hspace⟩ := (h.seated other old hold).root
    rw [← hspace]
    exact hcopied.unused _ root hroot
  | @mount seat place forest' source filesystem data target flags hseat hleads hdone =>
    have hfits := h.fits who seat hseat
    have hsole : OnlyIn k.forest forest' seat.space ∧ Sole k who seat := by
      rcases phase_of_mount hallowed with hphase | ⟨hphase, hmount⟩ | ⟨hphase, hflags⟩
      · exact absurd hphase hrun
      · rw [hphase] at hfits
        obtain ⟨⟨top, htop, -⟩, hsole⟩ := hfits
        obtain ⟨rfl, rfl, rfl, rfl, rfl⟩ := Syscall.mount.inj hmount
        obtain rfl := hleads.2 rfl
        obtain ⟨root, hroot, hin⟩ := (h.seated who seat hseat).root
        obtain rfl := Option.some.inj (hroot.symm.trans htop)
        have honly := onlyIn_madePrivate h.placed htop (madePrivate_of_mountDone hdone rfl)
        rw [hin] at honly
        exact ⟨honly, hsole⟩
      · rw [hphase] at hfits
        exact ⟨(secluded_mountDone hdone hfits.1 h.placed hleads.1 hflags).2, hfits.2⟩
    exact uninvolved_of_onlyIn (fun _ _ _ hold => hold) hsole.1 hsole.2
  | chdir hseat _ => exact ⟨seats_update _, fun _ _ _ _ _ _ _ => Iff.rfl⟩
  | @pivotRoot seat forest' hseat hpivoted =>
    have hfits := h.fits who seat hseat
    rcases phase_of_pivotRoot hallowed with hphase | hphase
    · exact absurd hphase hrun
    · rw [hphase] at hfits
      refine uninvolved_of_onlyIn (fun other old hother hold => ?_)
        (onlyIn_pivoted hfits.1 hpivoted) hfits.2
      have hsame := moved_elsewhere seat.cwd (h.seated other old hold) (h.seated who seat hseat)
        (hfits.2 other old hother hold)
      exact (congrArg (Option.map _) hold).trans (congrArg some hsame)
  | @detach seat top forest' hseat htop hdetached _ =>
    have hfits := h.fits who seat hseat
    rcases phase_of_detach hallowed with hphase | hphase
    · exact absurd hphase hrun
    · rw [hphase] at hfits
      obtain ⟨hsecluded, hsame, hstacked, hsole⟩ := hfits
      rw [hsame] at htop
      obtain ⟨hbelow, hne⟩ := top_of_stacked hsecluded hstacked htop
      exact uninvolved_of_onlyIn (fun _ _ _ hold => hold)
        (onlyIn_detached hsecluded h.placed hbelow hne hdetached) hsole

theorem uninvolved_leave (hleave : Namespaces.Leave who k k') : Uninvolved who k k' := by
  cases hleave with
  | stays => exact ⟨seats_update _, fun _ _ _ _ _ _ _ => Iff.rfl⟩
  | dissolves hseat hlast hdissolved =>
    exact uninvolved_of_onlyIn (seats_update _) (onlyIn_dissolved hdissolved)
      fun other old hother hold => hlast other old hother hold

/-- What others do leaves a secluded process alone. -/
theorem undisturbed_effect (h : Orderly p k) {i : ι} (hi : i ≠ who) {seat : Seat}
    (hseat : k.seat who = some seat) (hsecluded : Secluded k.forest seat.space seat.root)
    (hsole : Sole k who seat) {o : Syscall} {reply : Reply o}
    (heffect : Namespaces.Effect i k o reply k') :
    k'.seat who = some seat ∧ Undisturbed k.forest k'.forest seat.root := by
  cases heffect with
  | nothing _ => exact ⟨hseat, undisturbed_refl _ _⟩
  | unshare hother hcopied =>
    exact ⟨seats_update _ who seat hi.symm hseat, undisturbed_copied hsecluded h.placed hcopied⟩
  | mount hother hleads hdone =>
    obtain ⟨there, hthere, hspace⟩ := seated_below h.placed (h.seated i _ hother) hleads.1
    refine ⟨hseat, undisturbed_mountDone hdone hsecluded h.placed hthere ?_⟩
    rw [hspace]
    exact hsole i _ hi hother
  | chdir hother _ => exact ⟨seats_update _ who seat hi.symm hseat, undisturbed_refl _ _⟩
  | @pivotRoot mover forest' hother hpivoted =>
    have hne := hsole i _ hi hother
    obtain ⟨root, hroot, hspace⟩ := (h.seated i _ hother).root
    have hsame := moved_elsewhere mover.cwd (h.seated who seat hseat) (h.seated i _ hother) hne.symm
    refine ⟨(congrArg (Option.map _) hseat).trans (congrArg some hsame),
      undisturbed_pivoted hsecluded h.placed hroot (hspace.trans_ne hne) hpivoted⟩
  | detach hother htop hdetached _ =>
    obtain ⟨cwd, hcwd, hspace⟩ := (h.seated i _ hother).cwd
    obtain ⟨taken, htaken, hin⟩ := top_space h.placed htop hcwd
    refine ⟨hseat, undisturbed_detached hsecluded h.placed htaken ?_ hdetached⟩
    rw [hin, hspace]
    exact hsole i _ hi hother

theorem undisturbed_leave {i : ι} (hi : i ≠ who) {seat : Seat}
    (hseat : k.seat who = some seat) (hsecluded : Secluded k.forest seat.space seat.root)
    (hleave : Namespaces.Leave i k k') :
    k'.seat who = some seat ∧ Undisturbed k.forest k'.forest seat.root := by
  cases hleave with
  | stays => exact ⟨seats_update _ who seat hi.symm hseat, undisturbed_refl _ _⟩
  | dissolves hother hlast hdissolved =>
    exact ⟨seats_update _ who seat hi.symm hseat,
      undisturbed_dissolved hsecluded hdissolved (hlast who seat hi.symm hseat).symm⟩

end Among

/-! ### In any order of steps -/

section Runs
open Thread Arena

variable {ι β : Type} [DecidableEq ι]

/-- sandrun, and then the program that takes its place. -/
def process (sha256 : Bytes → Bytes) (config : Config) (image : Linux Unit) : Linux Unit := do
  Linux.run sha256 config
  image

abbrev Processes (ι β : Type) : Type :=
  System ι (Namespaces ι β) Syscall Reply (Failure RuntimeError) Unit

abbrev Happened (ι : Type) : Type := List (ι × Option Event)

/-- Some processes are about to run sandrun, with `/` at the top of their namespaces; the others are
any processes that make no other calls than these. -/
structure Starting (sha256 : Bytes → Bytes) (sandrun : ι → Prop) (system : Processes ι β) :
    Prop where
  placed : Placed system.shared.forest
  seated : ∀ i seat, system.shared.seat i = some seat → Seated system.shared.forest seat
  top : ∀ i seat, sandrun i → system.shared.seat i = some seat →
    AtTop system.shared.forest seat.root
  runs : ∀ i t, sandrun i → system.threads i = some t →
    ∃ config image, t = process sha256 config image

/-- The process has become another program. -/
def Replaced (who : ι) (trace : Happened ι) : Prop :=
  ∃ program arguments, (who, some ⟨.exec program arguments, true⟩) ∈ trace

/-- `make_mounts_private` has succeeded. -/
def MadeSecluded (who : ι) (trace : Happened ι) : Prop :=
  (who, some ⟨privateMount, true⟩) ∈ trace

omit [DecidableEq ι] in
theorem replaced_append (more : Happened ι) (h : Replaced who trace) :
    Replaced who (trace ++ more) := by
  obtain ⟨program, arguments, hmem⟩ := h
  exact ⟨program, arguments, List.mem_append_left _ hmem⟩

theorem process_phases (sha256 : Bytes → Bytes) (config : Config) (image : Linux Unit) :
    Meets phases (process sha256 config image) .before fun _ _ => True := by
  refine meets_bind (Linux.run_phases sha256 config) ?_
  rintro _ _ rfl
  exact Linux.meets_other fun _ => trivial

variable {sha256 : Bytes → Bytes} {sandrun : ι → Prop} {system middle : Processes ι β}
  {trace : Happened ι} {who : ι}

theorem watched_starting (h : Starting sha256 sandrun system) : ∃ p : ι → Phase,
    Watched (isolation ι β) p system ∧ ∀ i, sandrun i → p i = .before := by
  classical
  refine ⟨fun i => if sandrun i then .before else .other, ⟨⟨h.placed, h.seated, ?_⟩, ?_⟩, ?_⟩
  · intro i seat hseat
    by_cases hi : sandrun i
    · rw [if_pos hi]
      exact h.top i seat hi hseat
    · rw [if_neg hi]
      trivial
  · intro i t ht
    by_cases hi : sandrun i
    · obtain ⟨config, image, rfl⟩ := h.runs i t hi ht
      rw [if_pos hi]
      exact process_phases sha256 config image
    · rw [if_neg hi]
      exact Linux.meets_other fun _ => trivial
  · intro i hi
    exact if_pos hi

/-- Unless it has become another program, a run is in one of its phases; behind
`make_mounts_private` it is secluded. -/
theorem phase_of_reaches {p : ι → Phase} (hwatched : Watched (isolation ι β) p system)
    (hp : p who = .before) (hreaches : Reaches Namespaces.arena system trace middle)
    (hreplaced : ¬Replaced who trace) (hleft : (who, none) ∉ trace) :
    ((isolation ι β).along p trace who ≠ .other ∧ (isolation ι β).along p trace who ≠ .gone) ∧
      (MadeSecluded who trace → (isolation ι β).along p trace who = .secluded ∨
        (isolation ι β).along p trace who = .pivoted) := by
  induction hreaches with
  | refl => exact ⟨by simp [Watch.along, hp], fun hmade => absurd hmade List.not_mem_nil⟩
  | @step other trace event middle last hreaches hstep ih =>
    obtain ⟨hrunning, hsecluded⟩ := ih (mt (replaced_append _) hreplaced)
      fun hmem => hleft (List.mem_append_left _ hmem)
    have hbefore := watched_of_reaches hwatched hreaches
    have hlast : (isolation ι β).along p (trace ++ [(other, event)]) =
        (isolation ι β).next ((isolation ι β).along p trace) (other, event) := List.foldl_append ..
    rw [hlast]
    by_cases hother : other = who
    · subst hother
      rw [Watch.next, Function.update_self]
      cases hstep with
      | leave _ _ => exact absurd (List.mem_append_right _ List.mem_cons_self) hleft
      | @act _ o next answer shared hthread _ =>
        have hallowed := (hbefore.meets other _ hthread).1
        have hgoes := after_running hallowed hrunning fun program arguments heq =>
          hreplaced ⟨program, arguments, List.mem_append_right _ (by rw [heq]; exact List.mem_cons_self)⟩
        refine ⟨hgoes.1, fun hmade => hgoes.2 ?_⟩
        rcases List.mem_append.mp hmade with hmem | hmem
        · exact Or.inl (hsecluded hmem)
        · exact Or.inr (Option.some.inj (Prod.mk.inj (List.mem_singleton.mp hmem)).2).symm
    · rw [Watch.next, Function.update_of_ne (Ne.symm hother)]
      refine ⟨hrunning, fun hmade => hsecluded ?_⟩
      rcases List.mem_append.mp hmade with hmem | hmem
      · exact hmem
      · exact absurd (Prod.mk.inj (List.mem_singleton.mp hmem)).1.symm hother

/-- The process is there and runs sandrun. -/
structure Running (who : ι) (trace : Happened ι) (system : Processes ι β) : Prop where
  there : system.threads who ≠ none
  replaced : ¬Replaced who trace

theorem phase_of_running {p : ι → Phase} (hwatched : Watched (isolation ι β) p system)
    (hp : p who = .before) (hreaches : Reaches Namespaces.arena system trace middle)
    (hrunning : Running who trace middle) :
    ((isolation ι β).along p trace who ≠ .other ∧ (isolation ι β).along p trace who ≠ .gone) ∧
      (MadeSecluded who trace → (isolation ι β).along p trace who = .secluded ∨
        (isolation ι β).along p trace who = .pivoted) :=
  phase_of_reaches hwatched hp hreaches hrunning.replaced fun hleft =>
    hrunning.there (threads_of_left hreaches hleft)

/-- Whatever a process does that runs sandrun, nothing changes for any other process. -/
theorem run_isolated {last : Processes ι β} {event : Option Event}
    (hstart : Starting sha256 sandrun system)
    (hreaches : Reaches Namespaces.arena system trace middle) (hwho : sandrun who)
    (hrunning : Running who trace middle) (hstep : Step Namespaces.arena who event middle last) :
    Uninvolved who middle.shared last.shared := by
  obtain ⟨p, hwatched, hp⟩ := watched_starting hstart
  have hnow := watched_of_reaches hwatched hreaches
  obtain ⟨⟨hrun, -⟩, -⟩ := phase_of_running hwatched (hp who hwho) hreaches hrunning
  cases hstep with
  | act hthread heffect =>
    exact uninvolved_effect hnow.inv hrun (hnow.meets who _ hthread).1 heffect
  | leave _ hleave => exact uninvolved_leave hleave

/-- Whatever another process does, once the mounts of a run are private nothing changes below its
root. -/
theorem run_undisturbed {last : Processes ι β} {i : ι} {event : Option Event} {seat : Seat}
    (hstart : Starting sha256 sandrun system)
    (hreaches : Reaches Namespaces.arena system trace middle) (hwho : sandrun who)
    (hrunning : Running who trace middle) (hmade : MadeSecluded who trace)
    (hstep : Step Namespaces.arena i event middle last) (hi : i ≠ who)
    (hseat : middle.shared.seat who = some seat) :
    last.shared.seat who = some seat ∧
      Undisturbed middle.shared.forest last.shared.forest seat.root := by
  obtain ⟨p, hwatched, hp⟩ := watched_starting hstart
  have hnow := watched_of_reaches hwatched hreaches
  obtain ⟨-, hsecluded⟩ := phase_of_running hwatched (hp who hwho) hreaches hrunning
  have hfits := hnow.inv.fits who seat hseat
  have hown : Secluded middle.shared.forest seat.space seat.root ∧ Sole middle.shared who seat := by
    rcases hsecluded hmade with hphase | hphase
    · rw [hphase] at hfits
      exact hfits
    · rw [hphase] at hfits
      exact ⟨hfits.1, hfits.2.2.2⟩
  cases hstep with
  | act _ heffect => exact undisturbed_effect hnow.inv hi hseat hown.1 hown.2 heffect
  | leave _ hleave => exact undisturbed_leave hi hseat hown.1 hleave

end Runs

/-! ### A host with one shared mount -/

section Host
open Thread Arena

def hostMount : Mount Unit := ⟨0, none, false, some 0, none, ()⟩

/-- The host's mount is number 0, its copy number 1. -/
def hostForest (copy : Option (Mount Unit)) : MountForest Unit := fun number =>
  if number = 0 then some hostMount else if number = 1 then copy else none

def copiedMount : Mount Unit := { hostMount with space := 1 }

theorem orphans_host {copy : Option (Mount Unit)} (hcopy : ∀ mount ∈ copy, mount.parent = none)
    {number : ℕ} {mount : Mount Unit} (h : hostForest copy number = some mount) :
    mount.parent = none := by
  unfold hostForest at h
  split_ifs at h with h0 h1
  · rw [← Option.some.inj h]
    rfl
  · exact hcopy mount h

theorem copied_host :
    Copied (hostForest none) 0 1 (· + 1) (hostForest (some copiedMount)) where
  unused number mount h := by
    unfold hostForest at h
    split_ifs at h
    rw [← Option.some.inj h]
    decide
  kept number mount h := by
    unfold hostForest at h ⊢
    split_ifs at h ⊢
    exact h
  copied number mount h _ := by
    unfold hostForest at h ⊢
    split_ifs at h with h0
    subst h0
    rw [← Option.some.inj h]
    exact ⟨rfl, rfl⟩
  only number mount hnone h := by
    unfold hostForest at hnone h
    split_ifs at hnone h with h0 h1
    exact ⟨0, hostMount, rfl, rfl, h1.symm⟩

theorem madePrivate_host :
    MadePrivate (hostForest (some copiedMount)) 1 (hostForest (some copiedMount.alone)) := by
  have hbelow : ∀ number, Below (hostForest (some copiedMount)) 1 number → number = 1 := by
    intro number h
    cases h with
    | refl => rfl
    | child hmount hparent _ =>
      have hnone := orphans_host (by rintro _ ⟨⟩; rfl) hmount
      rw [hnone] at hparent
      cases hparent
  refine ⟨fun number h => ?_, fun number h => ?_⟩
  · rw [hbelow number h]
    rfl
  · have hne : number ≠ 1 := fun heq => h (heq ▸ .refl)
    simp [hostForest, hne]

def hostConfig : Config :=
  { rootfs := lit "/srv/rootfs", overlayDevice := none, overlayId := none, workdir := lit "/",
    user := none, standardMounts := false, diskMounts := [], binds := [], tmpfs := [],
    command := [lit "/bin/sh"] }

/-- A new filesystem is mounted on `/`. -/
def elsewhere : Syscall :=
  .mount (some (lit "tmpfs")) (lit "/") (some (lit "tmpfs")) MountFlags.none none

/-- One process runs sandrun; the other one mounts something. -/
def hostSystem : Processes Bool Unit :=
  ⟨⟨hostForest none, fun _ => some ⟨0, 0, 0⟩⟩, fun who =>
    some (if who then process id hostConfig (Linux.refuse (Linux.failed "" []))
      else Linux.mountRaw (some (lit "tmpfs")) (lit "/") (some (lit "tmpfs")) MountFlags.none none
        "mount_tmpfs_failed")⟩

theorem starting_host : Starting id (· = true) hostSystem where
  placed number mount parent h hparent := by
    rw [orphans_host (by simp) h] at hparent
    cases hparent
  seated i seat h := by
    obtain rfl : (⟨0, 0, 0⟩ : Seat) = seat := Option.some.inj h
    exact ⟨⟨hostMount, rfl, rfl⟩, ⟨hostMount, rfl, rfl⟩⟩
  top i seat _ h := by
    obtain rfl : (⟨0, 0, 0⟩ : Seat) = seat := Option.some.inj h
    exact ⟨hostMount, rfl, rfl⟩
  runs i t hi h := by
    subst hi
    exact ⟨hostConfig, _, (Option.some.inj h).symm⟩

/-- The calls of the run up to `make_mounts_private`. -/
def hostTrace : Happened Bool :=
  [(true, some ⟨.canonicalize (lit "/srv/rootfs"), .ok (lit "/srv/rootfs")⟩),
    (true, some ⟨.metadata (lit "/srv/rootfs"), .ok ⟨.directory, 0, 0, 0, 0o755⟩⟩),
    (true, some ⟨.unshare, true⟩)]

theorem reaches_act {start system : Processes Bool Unit} {trace : Happened Bool} (who : Bool)
    (o : Syscall) (answer : Reply o) {next : Reply o → Linux Unit} {shared : Namespaces Bool Unit}
    (hreaches : Reaches Namespaces.arena start trace system)
    (hthread : system.threads who = some (.op o next))
    (heffect : Namespaces.Effect who system.shared o answer shared) :
    ∃ after, Reaches Namespaces.arena start (trace ++ [(who, some ⟨o, answer⟩)]) after ∧
      Step Namespaces.arena who (some ⟨o, answer⟩) system after ∧ after.shared = shared ∧
        after.threads who = some (next answer) ∧
          ∀ other, other ≠ who → after.threads other = system.threads other := by
  have hstep : Step Namespaces.arena who (some ⟨o, answer⟩) system
      ⟨shared, Function.update system.threads who (some (next answer))⟩ := .act hthread heffect
  exact ⟨_, .step hreaches hstep, hstep, rfl, Function.update_self _ _ _,
    fun other hother => Function.update_of_ne hother _ _⟩

/-- Behind `unshare` the other process still has the shared mount, of which the run has a copy. -/
theorem reaches_host : ∃ middle : Processes Bool Unit,
    Reaches Namespaces.arena hostSystem hostTrace middle ∧
      middle.shared.forest = hostForest (some copiedMount) ∧
      middle.shared.seat true = some ⟨1, 1, 1⟩ ∧ middle.shared.seat false = some ⟨0, 0, 0⟩ ∧
      middle.threads false = hostSystem.threads false ∧
      ∃ next, middle.threads true = some (.op privateMount next) := by
  have hstart : Reaches Namespaces.arena hostSystem [] hostSystem := .refl
  obtain ⟨one, hone, -, hshared₁, hrun₁, hother₁⟩ := reaches_act true
    (.canonicalize (lit "/srv/rootfs")) (.ok (lit "/srv/rootfs")) hstart rfl (.nothing trivial)
  obtain ⟨two, htwo, -, hshared₂, hrun₂, hother₂⟩ := reaches_act true
    (.metadata (lit "/srv/rootfs")) (.ok ⟨.directory, 0, 0, 0, 0o755⟩) hone (hrun₁.trans rfl)
    (.nothing trivial)
  have hshared : two.shared = hostSystem.shared := hshared₂.trans hshared₁
  obtain ⟨three, hthree, -, hshared₃, hrun₃, hother₃⟩ := reaches_act true .unshare true htwo
    (hrun₂.trans rfl) (by
      rw [hshared]
      exact Namespaces.Effect.unshare rfl copied_host)
  refine ⟨three, hthree, ?_, ?_, ?_, ?_, _, hrun₃.trans rfl⟩
  · rw [hshared₃]
  · rw [hshared₃]
    rfl
  · rw [hshared₃]
    rfl
  · rw [hother₃ false (by decide), hother₂ false (by decide), hother₁ false (by decide)]

/-- A run makes its copy of a shared mount private. -/
theorem run_isolated_host : ∃ middle last : Processes Bool Unit,
    Step Namespaces.arena true (some ⟨privateMount, true⟩) middle last ∧
      middle.shared.forest = hostForest (some copiedMount) ∧
      last.shared.forest = hostForest (some copiedMount.alone) ∧
      Uninvolved true middle.shared last.shared := by
  obtain ⟨middle, hreaches, hforest, hseat, hother, -, next, hthread⟩ := reaches_host
  have hdone : MountDone middle.shared.forest ⟨1, 1, 1⟩ 1
      { MountFlags.none with msRec := true, msPrivate := true }
      (hostForest (some copiedMount.alone)) := by
    rw [hforest]
    exact .makePrivate rfl rfl ⟨rfl, rfl⟩ madePrivate_host
  obtain ⟨last, -, hstep, hshared, -, -⟩ := reaches_act true privateMount true hreaches hthread
    (Namespaces.Effect.mount hseat ⟨.refl, fun _ => rfl⟩ hdone)
  have hrunning : Running true hostTrace middle := by
    refine ⟨by simp [hthread], ?_⟩
    rintro ⟨program, arguments, hmem⟩
    simp [hostTrace] at hmem
  refine ⟨middle, last, hstep, hforest, by rw [hshared], ?_⟩
  exact run_isolated starting_host hreaches rfl hrunning hstep

/-- What the other process mounts, on the mount that the run had a copy of. -/
def elsewhereMount : Mount Unit := ⟨0, some 0, true, some 1, none, ()⟩

/-- It gets the number 2. -/
def laterForest : MountForest Unit := fun number =>
  if number = 2 then some elsewhereMount else hostForest (some copiedMount.alone) number

theorem mounted_host :
    Mounted (hostForest (some copiedMount.alone)) 0 (fun _ => False) laterForest where
  kept number mount h := by
    have hne : number ≠ 2 := by
      rintro rfl
      cases h
    rw [laterForest, if_neg hne]
    exact h
  comes number mount hnone h := by
    by_cases hnew : number = 2
    · rw [laterForest, if_pos hnew] at h
      obtain rfl := Option.some.inj h
      exact .on hnone (by rw [laterForest, if_pos hnew]) rfl
    · rw [laterForest, if_neg hnew, hnone] at h
      cases h
  placed number mount parent hnone h hparent := by
    by_cases hnew : number = 2
    · rw [laterForest, if_pos hnew] at h
      obtain rfl := Option.some.inj h
      obtain rfl := Option.some.inj hparent
      exact ⟨hostMount, rfl, rfl⟩
    · rw [laterForest, if_neg hnew, hnone] at h
      cases h
  grouped at' hat hgroup := by
    obtain rfl : hostMount = at' := Option.some.inj hat
    cases hgroup

/-- Then the other process mounts something on its root, which is a shared mount: it does not come
into the run's namespace. -/
theorem run_undisturbed_host : ∃ middle last : Processes Bool Unit,
    Step Namespaces.arena false (some ⟨elsewhere, true⟩) middle last ∧
      middle.shared.forest = hostForest (some copiedMount.alone) ∧
      last.shared.forest = laterForest ∧ last.shared.seat true = some ⟨1, 1, 1⟩ ∧
      Undisturbed middle.shared.forest last.shared.forest 1 := by
  obtain ⟨before, hbefore, hforest, hseat, hother, hthere, next, hthread⟩ := reaches_host
  have hprivate : MountDone before.shared.forest ⟨1, 1, 1⟩ 1
      { MountFlags.none with msRec := true, msPrivate := true }
      (hostForest (some copiedMount.alone)) := by
    rw [hforest]
    exact .makePrivate rfl rfl ⟨rfl, rfl⟩ madePrivate_host
  obtain ⟨middle, hreaches, -, hshared, hrun, hkept⟩ := reaches_act true privateMount true hbefore
    hthread (Namespaces.Effect.mount hseat ⟨.refl, fun _ => rfl⟩ hprivate)
  have hplace : middle.shared.seat false = some ⟨0, 0, 0⟩ := by
    rw [hshared]
    exact hother
  have hnew : MountDone middle.shared.forest ⟨0, 0, 0⟩ 0 MountFlags.none laterForest := by
    rw [hshared]
    exact .new rfl rfl (by decide) mounted_host
  obtain ⟨last, -, hstep, hlast, -, -⟩ := reaches_act false elsewhere true hreaches
    ((hkept false (by decide)).trans (hthere.trans rfl))
    (Namespaces.Effect.mount hplace ⟨.refl, fun _ => rfl⟩ hnew)
  have hrunning : Running true (hostTrace ++ [(true, some ⟨privateMount, true⟩)]) middle := by
    refine ⟨by simp [hrun], ?_⟩
    rintro ⟨program, arguments, hmem⟩
    simp [hostTrace, privateMount] at hmem
  have hseat' : middle.shared.seat true = some ⟨1, 1, 1⟩ := by
    rw [hshared]
    exact hseat
  have hsame := run_undisturbed starting_host hreaches rfl hrunning
    (List.mem_append_right _ List.mem_cons_self) hstep (by decide) hseat'
  exact ⟨middle, last, hstep, by rw [hshared], by rw [hlast], hsame⟩

end Host

end Sandcamp.Sandrun
