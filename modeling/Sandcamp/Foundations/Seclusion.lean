import Sandcamp.Foundations.Propagation

/-!
# Secluded mounts

What lies below a root is `Secluded` if it is in one namespace and takes part in no propagation:
then nobody else's calls touch it (`Undisturbed`), and its owner's calls touch nothing else
(`OnlyIn`).
-/

namespace Foundations.MountForest

variable {β : Type} {forest forest' : MountForest β} {root place number space : ℕ} {mount : Mount β}

/-- What lies below the root is in this namespace and takes part in no propagation. -/
structure Secluded (forest : MountForest β) (space root : ℕ) : Prop where
  top : ∃ mount, forest root = some mount ∧ mount.parent = none
  space : ∀ number mount, Below forest root number → forest number = some mount →
    mount.space = space
  lone : ∀ number mount, Below forest root number → forest number = some mount → mount.Lone

theorem not_receives_lone {group : ℕ} (hmount : forest number = some mount) (h : mount.Lone) :
    ¬Receives forest group number := by
  rintro ⟨found, peers, hfound, -, hgroup | hmaster⟩
  · obtain rfl := Option.some.inj (hmount.symm.trans hfound)
    rw [h.1] at hgroup
    cases hgroup
  · obtain rfl := Option.some.inj (hmount.symm.trans hfound)
    rw [h.2] at hmaster
    cases hmaster

/-! ### What others cannot touch -/

/-- What lies below the root is as it was. -/
structure Undisturbed (forest forest' : MountForest β) (root : ℕ) : Prop where
  same : ∀ number, Below forest root number → forest' number = forest number
  closed : ∀ number mount parent, forest' number = some mount → mount.parent = some parent →
    Below forest root parent → Below forest root number

theorem undisturbed_refl (forest : MountForest β) (root : ℕ) : Undisturbed forest forest root :=
  ⟨fun _ _ => rfl, fun _ _ _ hmount hparent hbelow => .child hmount hparent hbelow⟩

theorem Undisturbed.below (h : Undisturbed forest forest' root) (hbelow : Below forest' root number) :
    Below forest root number := by
  induction hbelow with
  | refl => exact .refl
  | child hmount hparent _ ih => exact h.closed _ _ _ hmount hparent ih

theorem secluded_undisturbed (h : Secluded forest space root) (hsame : Undisturbed forest forest' root) :
    Secluded forest' space root where
  top := by
    obtain ⟨mount, hmount, hparent⟩ := h.top
    exact ⟨mount, (hsame.same _ .refl).trans hmount, hparent⟩
  space number mount hbelow hmount := by
    have hold := hsame.below hbelow
    exact h.space number mount hold ((hsame.same number hold).symm.trans hmount)
  lone number mount hbelow hmount := by
    have hold := hsame.below hbelow
    exact h.lone number mount hold ((hsame.same number hold).symm.trans hmount)

/-- Every change is in this namespace. -/
structure OnlyIn (forest forest' : MountForest β) (space : ℕ) : Prop where
  kept : ∀ number mount, forest number = some mount → mount.space ≠ space →
    forest' number = some mount
  only : ∀ number mount, forest' number = some mount → mount.space ≠ space →
    forest number = some mount

/-- Nothing new lies on what is here. -/
theorem undisturbed_of_entries (hsame : ∀ number, Below forest root number →
      forest' number = forest number)
    (hclosed : ∀ number mount parent, forest' number = some mount → mount.parent = some parent →
      forest number = some mount ∨ ¬Below forest root parent) :
    Undisturbed forest forest' root := by
  refine ⟨hsame, fun number mount parent hmount hparent hbelow => ?_⟩
  rcases hclosed number mount parent hmount hparent with hold | hnot
  · exact .child hold hparent hbelow
  · exact absurd hbelow hnot

/-! ### Changes by others -/

section Others

variable {there : Mount β} (h : Secluded forest space root) (hplaced : Placed forest)
  (hthere : forest place = some there) (hspace : there.space ≠ space)
include h

theorem found_of_below (hbelow : Below forest root number) :
    ∃ mount, forest number = some mount :=
  below_found hbelow h.top.choose_spec.1

include hthere hspace

theorem not_below_elsewhere : ¬Below forest root place := fun hbelow =>
  hspace (h.space place there hbelow hthere)

theorem undisturbed_mounted {source : ℕ → Prop} (hmounted : Mounted forest place source forest') :
    Undisturbed forest forest' root := by
  have hsame : ∀ number, Below forest root number → forest' number = forest number := by
    intro number hbelow
    obtain ⟨mount, hmount⟩ := found_of_below h hbelow
    rw [hmount]
    exact hmounted.kept number mount hmount
  refine undisturbed_of_entries hsame fun number mount parent hmount hparent => ?_
  cases hold : forest number with
  | some old =>
    left
    rw [← hmount, hmounted.kept number old hold]
  | none =>
    right
    -- a new mount comes on `place`, on a receiver or on a new mount, none of which is here
    cases hmounted.comes number mount hold hmount with
    | on _ hfound hon =>
      obtain rfl := Option.some.inj (hmount.symm.trans hfound)
      obtain rfl := Option.some.inj (hparent.symm.trans hon)
      exact not_below_elsewhere h hthere hspace
    | received _ hfound hon hat hgroup hreceives =>
      obtain rfl := Option.some.inj (hmount.symm.trans hfound)
      obtain rfl := Option.some.inj (hparent.symm.trans hon)
      intro hbelow
      obtain ⟨above, habove⟩ := found_of_below h hbelow
      exact not_receives_lone habove (h.lone _ above hbelow habove) hreceives
    | inside _ hfound hon hcomes =>
      obtain rfl := Option.some.inj (hmount.symm.trans hfound)
      obtain rfl := Option.some.inj (hparent.symm.trans hon)
      intro hbelow
      obtain ⟨above, habove⟩ := found_of_below h hbelow
      have hnew : forest parent = none := by
        cases hcomes with
        | on hnone _ _ => exact hnone
        | received hnone _ _ _ _ _ => exact hnone
        | inside hnone _ _ _ => exact hnone
      rw [hnew] at habove
      cases habove

include hplaced

theorem undisturbed_detached (hdetached : Detached forest place forest') :
    Undisturbed forest forest' root := by
  have hsame : ∀ number, Below forest root number → forest' number = forest number := by
    intro number hbelow
    obtain ⟨mount, hmount⟩ := found_of_below h hbelow
    cases hleft : forest' number with
    | some left => rw [hdetached.kept number left hleft]
    | none =>
      exfalso
      rcases hdetached.only number mount hmount hleft with htaken |
        ⟨taken, parent, at', group, receiver, child, below, htaken, -, -, -, hreceives, hchild,
          hparent, hunder⟩
      · have hin := below_space hplaced htaken hthere hmount
        rw [h.space number mount hbelow hmount] at hin
        exact hspace hin.symm
      -- whatever is taken off at a receiver lies on it, and nothing here is a receiver
      · rcases below_linear hbelow hunder with hhere | habove
        · cases hhere with
          | refl =>
            obtain ⟨top, htop, hnone⟩ := h.top
            obtain rfl := Option.some.inj (hchild.symm.trans htop)
            rw [hnone] at hparent
            cases hparent
          | child hmount' hparent' hbelow' =>
            obtain rfl := Option.some.inj (hchild.symm.trans hmount')
            obtain rfl := Option.some.inj (hparent.symm.trans hparent')
            obtain ⟨above, habove⟩ := found_of_below h hbelow'
            exact not_receives_lone habove (h.lone _ above hbelow' habove) hreceives
        · obtain ⟨top, htop, hnone⟩ := h.top
          cases habove with
          | refl =>
            obtain rfl := Option.some.inj (hchild.symm.trans htop)
            rw [hnone] at hparent
            cases hparent
          | child hmount' hparent' _ =>
            obtain rfl := Option.some.inj (htop.symm.trans hmount')
            rw [hnone] at hparent'
            cases hparent'
  refine undisturbed_of_entries hsame fun number mount parent hmount _ => ?_
  exact Or.inl (hdetached.kept number mount hmount)

theorem undisturbed_pivoted {new : ℕ} (hpivoted : Pivoted forest place new forest') :
    Undisturbed forest forest' root := by
  obtain ⟨lifted, hlifted, -, hnew⟩ := hpivoted.lifted
  obtain ⟨lowered, hlowered, -, hold⟩ := hpivoted.lowered
  have hnewSpace : lifted.space ≠ space := by
    rw [below_space hplaced hpivoted.below hthere hlifted]
    exact hspace
  have hnotNew : ¬Below forest root new := not_below_elsewhere h hlifted hnewSpace
  have hnotPlace : ¬Below forest root place := not_below_elsewhere h hthere hspace
  have hsame : ∀ number, Below forest root number → forest' number = forest number :=
    fun number hbelow => hpivoted.kept number (fun heq => hnotNew (heq ▸ hbelow))
      fun heq => hnotPlace (heq ▸ hbelow)
  refine undisturbed_of_entries hsame fun number mount parent hmount hparent => ?_
  by_cases hnumber : number = new
  · subst hnumber
    rw [hnew] at hmount
    obtain rfl := Option.some.inj hmount
    cases hparent
  · by_cases hplace : number = place
    · subst hplace
      rw [hold] at hmount
      obtain rfl := Option.some.inj hmount
      obtain rfl := Option.some.inj hparent
      exact Or.inr hnotNew
    · rw [hpivoted.kept number hnumber hplace] at hmount
      exact Or.inl hmount

theorem undisturbed_madePrivate (hprivate : MadePrivate forest place forest') :
    Undisturbed forest forest' root := by
  have hnot : ∀ number, Below forest root number → ¬Below forest place number := by
    intro number hbelow hplace
    obtain ⟨mount, hmount⟩ := found_of_below h hbelow
    have hin := below_space hplaced hplace hthere hmount
    rw [h.space number mount hbelow hmount] at hin
    exact hspace hin.symm
  have hsame : ∀ number, Below forest root number → forest' number = forest number :=
    fun number hbelow => hprivate.kept number (hnot number hbelow)
  refine ⟨hsame, fun number mount parent hmount hparent hbelow => ?_⟩
  by_cases hplace : Below forest place number
  · rw [hprivate.alone number hplace] at hmount
    obtain ⟨old, hold, rfl⟩ := Option.map_eq_some_iff.mp hmount
    exact .child hold hparent hbelow
  · rw [hprivate.kept number hplace] at hmount
    exact .child hmount hparent hbelow

theorem undisturbed_regrouped (hregrouped : Regrouped forest place forest') :
    Undisturbed forest forest' root := by
  have hnot : ∀ number, Below forest root number → ¬Below forest place number := by
    intro number hbelow hplace
    obtain ⟨mount, hmount⟩ := found_of_below h hbelow
    have hin := below_space hplaced hplace hthere hmount
    rw [h.space number mount hbelow hmount] at hin
    exact hspace hin.symm
  refine ⟨fun number hbelow => hregrouped.kept number (hnot number hbelow),
    fun number mount parent hmount hparent hbelow => ?_⟩
  obtain ⟨group, master, hafter⟩ := hregrouped.regrouped number
  rw [hafter] at hmount
  obtain ⟨old, hold, rfl⟩ := Option.map_eq_some_iff.mp hmount
  exact .child hold hparent hbelow

omit hplaced in
theorem undisturbed_changed (hchanged : Changed forest place forest') :
    Undisturbed forest forest' root := by
  have hnot : ¬Below forest root place := not_below_elsewhere h hthere hspace
  obtain ⟨mount, body, hmount, hafter⟩ := hchanged.changed
  have hsame : ∀ number, Below forest root number → forest' number = forest number :=
    fun number hbelow => hchanged.kept number fun heq => hnot (heq ▸ hbelow)
  refine ⟨hsame, fun number found parent hfound hparent hbelow => ?_⟩
  by_cases hnumber : number = place
  · subst hnumber
    rw [hafter] at hfound
    obtain rfl := Option.some.inj hfound
    exact .child hmount hparent hbelow
  · rw [hchanged.kept number hnumber] at hfound
    exact .child hfound hparent hbelow

end Others

theorem undisturbed_copied {space' other : ℕ} {copy : ℕ → ℕ} (h : Secluded forest space root)
    (hplaced : Placed forest) (hcopied : Copied forest other space' copy forest') :
    Undisturbed forest forest' root := by
  have hsame : ∀ number, Below forest root number → forest' number = forest number := by
    intro number hbelow
    obtain ⟨mount, hmount⟩ := found_of_below h hbelow
    rw [hmount]
    exact hcopied.kept number mount hmount
  refine undisturbed_of_entries hsame fun number mount parent hmount hparent => ?_
  cases hold : forest number with
  | some old =>
    left
    rw [← hmount, hcopied.kept number old hold]
  | none =>
    right
    intro hbelow
    obtain ⟨original, old, hfound, hin, rfl⟩ := hcopied.only number mount hold hmount
    rw [(hcopied.copied original old hfound hin).2] at hmount
    obtain rfl := Option.some.inj hmount
    obtain ⟨above, habove, rfl⟩ := Option.map_eq_some_iff.mp hparent
    obtain ⟨parentMount, hparentMount, hparentSpace⟩ := hplaced original old above hfound habove
    have hnew := (hcopied.copied above parentMount hparentMount (hparentSpace.trans hin)).1
    obtain ⟨found, hfound'⟩ := found_of_below h hbelow
    rw [hnew] at hfound'
    cases hfound'

theorem undisturbed_dissolved {other : ℕ} (h : Secluded forest space root)
    (hdissolved : Dissolved forest other forest') (hne : other ≠ space) :
    Undisturbed forest forest' root := by
  have hsame : ∀ number, Below forest root number → forest' number = forest number := by
    intro number hbelow
    obtain ⟨mount, hmount⟩ := found_of_below h hbelow
    rw [hmount]
    exact hdissolved.kept number mount hmount ((h.space number mount hbelow hmount).trans_ne hne.symm)
  exact undisturbed_of_entries hsame fun number mount parent hmount _ =>
    Or.inl (hdissolved.only number mount hmount).1

/-! ### What the owner does -/

section Owner

variable (h : Secluded forest space root)
include h

/-- On what is here only new mounts come that are here, and that are lone. -/
theorem mounted_here {source : ℕ → Prop} (hplace : Below forest root place)
    (hsource : ∀ copied, source copied → Below forest root copied)
    (hmounted : Mounted forest place source forest') {mount : Mount β}
    (hnew : forest number = none) (hmount : forest' number = some mount) :
    mount.space = space ∧ mount.Lone := by
  obtain ⟨at', hat⟩ := found_of_below h hplace
  have hlone := h.lone place at' hplace hat
  constructor
  · have hcomes := hmounted.comes number mount hnew hmount
    clear hnew
    induction hcomes generalizing mount with
    | on hnone hfound hparent =>
      obtain rfl := Option.some.inj (hmount.symm.trans hfound)
      obtain ⟨above, habove, hspace⟩ := hmounted.placed _ _ _ hnone hfound hparent
      obtain rfl := Option.some.inj (habove.symm.trans (hmounted.kept place at' hat))
      exact hspace.symm.trans (h.space place _ hplace hat)
    | received _ _ _ hat' hgroup _ =>
      obtain rfl := Option.some.inj (hat.symm.trans hat')
      rw [hlone.1] at hgroup
      cases hgroup
    | inside hnone hfound hparent _ ih =>
      obtain rfl := Option.some.inj (hmount.symm.trans hfound)
      obtain ⟨above, habove, hspace⟩ := hmounted.placed _ _ _ hnone hfound hparent
      exact hspace.symm.trans (ih habove)
  · rcases hmounted.grouped at' hat hlone.1 number mount hnew hmount with hmade |
      ⟨copied, original, hcopied, horiginal, hgroup, hmaster⟩
    · exact hmade
    · have hsame := h.lone copied original (hsource copied hcopied) horiginal
      exact ⟨hgroup.trans hsame.1, hmaster.trans hsame.2⟩

theorem secluded_mounted {source : ℕ → Prop} (hplaced : Placed forest)
    (hplace : Below forest root place)
    (hsource : ∀ copied, source copied → Below forest root copied)
    (hmounted : Mounted forest place source forest') : Secluded forest' space root := by
  have hhere : ∀ number mount, Below forest' root number → forest' number = some mount →
      mount.space = space ∧ mount.Lone := by
    intro number mount hbelow hmount
    cases hold : forest number with
    | none => exact mounted_here h hplace hsource hmounted hold hmount
    | some old =>
      have hsame := hmounted.kept number old hold
      rw [hmount] at hsame
      obtain rfl := Option.some.inj hsame
      -- the parents of an old mount are old ones
      have hbefore : Below forest root number := by
        clear hmount hsame
        induction hbelow generalizing mount with
        | refl => exact .refl
        | child hfound hparent _ ih =>
          have hkept := hmounted.kept _ _ hold
          obtain rfl := Option.some.inj (hkept.symm.trans hfound)
          obtain ⟨above, habove, -⟩ := hplaced _ _ _ hold hparent
          exact .child hold hparent (ih above habove)
      exact ⟨h.space number mount hbefore hold, h.lone number mount hbefore hold⟩
  obtain ⟨top, htop, hparent⟩ := h.top
  exact
    { top := ⟨top, hmounted.kept root top htop, hparent⟩
      space := fun number mount hbelow hmount => (hhere number mount hbelow hmount).1
      lone := fun number mount hbelow hmount => (hhere number mount hbelow hmount).2 }

theorem onlyIn_mounted {source : ℕ → Prop} (hplace : Below forest root place)
    (hsource : ∀ copied, source copied → Below forest root copied)
    (hmounted : Mounted forest place source forest') : OnlyIn forest forest' space := by
  refine ⟨fun number mount hmount _ => hmounted.kept number mount hmount,
    fun number mount hmount hspace => ?_⟩
  cases hold : forest number with
  | some old =>
    rw [← hmount, hmounted.kept number old hold]
  | none => exact absurd (mounted_here h hplace hsource hmounted hold hmount).1 hspace

/-- Taking off what does not hold up the root. -/
theorem secluded_detached (hplace : Below forest root place) (hne : place ≠ root)
    (hdetached : Detached forest place forest') : Secluded forest' space root := by
  have hbefore : ∀ number, Below forest' root number → Below forest root number := by
    intro number hbelow
    induction hbelow with
    | refl => exact .refl
    | child hfound hparent _ ih => exact .child (hdetached.kept _ _ hfound) hparent ih
  obtain ⟨top, htop, hnone⟩ := h.top
  refine ⟨⟨top, ?_, hnone⟩, fun number mount hbelow hmount => ?_, fun number mount hbelow hmount => ?_⟩
  · cases hleft : forest' root with
    | some left => rw [← htop, hdetached.kept root left hleft]
    | none =>
      exfalso
      rcases hdetached.only root top htop hleft with hunder |
        ⟨-, -, -, -, receiver, child, below, -, -, -, -, hreceives, hchild, hparent, hunder⟩
      · cases hunder with
        | refl => exact hne rfl
        | child hfound hparent _ =>
          obtain rfl := Option.some.inj (htop.symm.trans hfound)
          rw [hnone] at hparent
          cases hparent
      · cases hunder with
        | refl =>
          obtain rfl := Option.some.inj (htop.symm.trans hchild)
          rw [hnone] at hparent
          cases hparent
        | child hfound hparent' _ =>
          obtain rfl := Option.some.inj (htop.symm.trans hfound)
          rw [hnone] at hparent'
          cases hparent'
  · exact h.space number mount (hbefore number hbelow) (hdetached.kept number mount hmount)
  · exact h.lone number mount (hbefore number hbelow) (hdetached.kept number mount hmount)

theorem onlyIn_detached (hplaced : Placed forest) (hplace : Below forest root place)
    (hne : place ≠ root) (hdetached : Detached forest place forest') :
    OnlyIn forest forest' space := by
  refine ⟨fun number mount hmount hspace => ?_, fun number mount hmount _ =>
    hdetached.kept number mount hmount⟩
  cases hleft : forest' number with
  | some left => rw [← hmount, hdetached.kept number left hleft]
  | none =>
    exfalso
    rcases hdetached.only number mount hmount hleft with hunder |
      ⟨taken, parent, at', group, -, -, -, htaken, hparent, hat, hgroup, -⟩
    · obtain ⟨taken, htaken⟩ := found_of_below h hplace
      have hin := below_space hplaced hunder htaken hmount
      exact hspace (hin.trans (h.space place taken hplace htaken))
    -- its parent is here, so it hands nothing on
    · cases hplace with
      | refl => exact hne rfl
      | child hfound hparent' hbelow =>
        obtain rfl := Option.some.inj (htaken.symm.trans hfound)
        obtain rfl := Option.some.inj (hparent.symm.trans hparent')
        rw [(h.lone parent at' hbelow hat).1] at hgroup
        cases hgroup

/-- The new root has everything below it that the old one had. -/
theorem secluded_pivoted {new : ℕ} (hpivoted : Pivoted forest root new forest') :
    Secluded forest' space new := by
  obtain ⟨lifted, hlifted, -, hnew⟩ := hpivoted.lifted
  obtain ⟨lowered, hlowered, -, hold⟩ := hpivoted.lowered
  have hbefore : ∀ number, Below forest' new number → Below forest root number := by
    intro number hbelow
    induction hbelow with
    | refl => exact hpivoted.below
    | @child number parent mount hfound hparent _ ih =>
      by_cases hroot : number = root
      · subst hroot
        exact .refl
      · by_cases hnumber : number = new
        · subst hnumber
          exact hpivoted.below
        · rw [hpivoted.kept number hnumber hroot] at hfound
          exact .child hfound hparent ih
  have hsame : ∀ number mount, forest' number = some mount → ∃ old, forest number = some old ∧
      old.space = mount.space ∧ old.group = mount.group ∧ old.master = mount.master := by
    intro number mount hmount
    by_cases hroot : number = root
    · subst hroot
      rw [hold] at hmount
      obtain rfl := Option.some.inj hmount
      exact ⟨lowered, hlowered, rfl, rfl, rfl⟩
    · by_cases hnumber : number = new
      · subst hnumber
        rw [hnew] at hmount
        obtain rfl := Option.some.inj hmount
        exact ⟨lifted, hlifted, rfl, rfl, rfl⟩
      · exact ⟨mount, (hpivoted.kept number hnumber hroot).symm.trans hmount, rfl, rfl, rfl⟩
  refine ⟨⟨_, hnew, rfl⟩, fun number mount hbelow hmount => ?_, fun number mount hbelow hmount => ?_⟩
  · obtain ⟨old, hfound, hspace, -⟩ := hsame number mount hmount
    exact hspace.symm.trans (h.space number old (hbefore number hbelow) hfound)
  · obtain ⟨old, hfound, -, hgroup, hmaster⟩ := hsame number mount hmount
    have hlone := h.lone number old (hbefore number hbelow) hfound
    exact ⟨hgroup.symm.trans hlone.1, hmaster.symm.trans hlone.2⟩

theorem onlyIn_pivoted {new : ℕ} (hpivoted : Pivoted forest root new forest') :
    OnlyIn forest forest' space := by
  obtain ⟨lifted, hlifted, -, hnew⟩ := hpivoted.lifted
  obtain ⟨lowered, hlowered, -, hold⟩ := hpivoted.lowered
  have hhere : lifted.space = space ∧ lowered.space = space :=
    ⟨h.space new lifted hpivoted.below hlifted, h.space root lowered .refl hlowered⟩
  have hsame : ∀ number mount, (forest number = some mount ∨ forest' number = some mount) →
      mount.space ≠ space → forest' number = forest number := by
    intro number mount hmount hspace
    refine hpivoted.kept number ?_ ?_
    · rintro rfl
      rw [hlifted, hnew] at hmount
      rcases hmount with hmount | hmount
      · exact hspace (Option.some.inj hmount ▸ hhere.1)
      · exact hspace (Option.some.inj hmount ▸ hhere.1)
    · rintro rfl
      rw [hlowered, hold] at hmount
      rcases hmount with hmount | hmount
      · exact hspace (Option.some.inj hmount ▸ hhere.2)
      · exact hspace (Option.some.inj hmount ▸ hhere.2)
  exact ⟨fun number mount hmount hspace => (hsame number mount (Or.inl hmount) hspace).trans hmount,
    fun number mount hmount hspace =>
      (hsame number mount (Or.inr hmount) hspace).symm.trans hmount⟩

theorem secluded_changed (hchanged : Changed forest place forest') :
    Secluded forest' space root := by
  obtain ⟨changed, body, hfound, hafter⟩ := hchanged.changed
  have hsame : ∀ number mount, forest' number = some mount → ∃ old, forest number = some old ∧
      old.space = mount.space ∧ old.parent = mount.parent ∧ old.group = mount.group ∧
        old.master = mount.master := by
    intro number mount hmount
    by_cases hnumber : number = place
    · subst hnumber
      rw [hafter] at hmount
      obtain rfl := Option.some.inj hmount
      exact ⟨changed, hfound, rfl, rfl, rfl, rfl⟩
    · exact ⟨mount, (hchanged.kept number hnumber).symm.trans hmount, rfl, rfl, rfl, rfl⟩
  have hbefore : ∀ number, Below forest' root number → Below forest root number := by
    intro number hbelow
    induction hbelow with
    | refl => exact .refl
    | child hmount hparent _ ih =>
      obtain ⟨old, hold, -, hsame', -⟩ := hsame _ _ hmount
      exact .child hold (hsame'.trans hparent) ih
  refine ⟨?_, fun number mount hbelow hmount => ?_, fun number mount hbelow hmount => ?_⟩
  · obtain ⟨top, htop, hnone⟩ := h.top
    by_cases hroot : root = place
    · subst hroot
      obtain rfl := Option.some.inj (htop.symm.trans hfound)
      exact ⟨_, hafter, hnone⟩
    · exact ⟨top, (hchanged.kept root hroot).trans htop, hnone⟩
  · obtain ⟨old, hold, hspace, -⟩ := hsame number mount hmount
    exact hspace.symm.trans (h.space number old (hbefore number hbelow) hold)
  · obtain ⟨old, hold, -, -, hgroup, hmaster⟩ := hsame number mount hmount
    have hlone := h.lone number old (hbefore number hbelow) hold
    exact ⟨hgroup.symm.trans hlone.1, hmaster.symm.trans hlone.2⟩

end Owner

/-- A change of one mount of a namespace. -/
theorem onlyIn_changed {there : Mount β} (hthere : forest place = some there)
    (hchanged : Changed forest place forest') : OnlyIn forest forest' there.space := by
  obtain ⟨changed, body, hfound, hafter⟩ := hchanged.changed
  obtain rfl := Option.some.inj (hthere.symm.trans hfound)
  have hne : ∀ number mount, (forest number = some mount ∨ forest' number = some mount) →
      mount.space ≠ there.space → number ≠ place := by
    rintro number mount hmount hspace rfl
    rw [hthere, hafter] at hmount
    rcases hmount with hmount | hmount
    · exact hspace (Option.some.inj hmount ▸ rfl)
    · exact hspace (Option.some.inj hmount ▸ rfl)
  exact ⟨fun number mount hmount hspace =>
      (hchanged.kept number (hne number mount (Or.inl hmount) hspace)).trans hmount,
    fun number mount hmount hspace =>
      (hchanged.kept number (hne number mount (Or.inr hmount) hspace)).symm.trans hmount⟩

/-- Everything below a root is made private: it is secluded from then on. -/
theorem secluded_madePrivate {top : Mount β} (hplaced : Placed forest)
    (htop : forest root = some top) (hparent : top.parent = none)
    (hprivate : MadePrivate forest root forest') : Secluded forest' top.space root := by
  have hbefore : ∀ number, Below forest' root number → Below forest root number := by
    intro number hbelow
    induction hbelow with
    | refl => exact .refl
    | @child number parent mount hmount hparent _ ih =>
      by_cases hin : Below forest root number
      · exact hin
      · rw [hprivate.kept number hin] at hmount
        exact .child hmount hparent ih
  refine ⟨⟨top.alone, ?_, hparent⟩, fun number mount hbelow hmount => ?_,
    fun number mount hbelow hmount => ?_⟩
  · rw [hprivate.alone root .refl, htop, Option.map_some]
  · have hin := hbefore number hbelow
    rw [hprivate.alone number hin] at hmount
    obtain ⟨old, hold, rfl⟩ := Option.map_eq_some_iff.mp hmount
    have hspace : old.space = top.space := below_space hplaced hin htop hold
    exact hspace
  · rw [hprivate.alone number (hbefore number hbelow)] at hmount
    obtain ⟨old, -, rfl⟩ := Option.map_eq_some_iff.mp hmount
    exact ⟨rfl, rfl⟩

theorem onlyIn_madePrivate {top : Mount β} (hplaced : Placed forest)
    (htop : forest root = some top) (hprivate : MadePrivate forest root forest') :
    OnlyIn forest forest' top.space := by
  have hsame : ∀ number mount, (forest number = some mount ∨ forest' number = some mount) →
      mount.space ≠ top.space → forest' number = forest number := by
    intro number mount hmount hspace
    refine hprivate.kept number fun hbelow => ?_
    rw [hprivate.alone number hbelow] at hmount
    rcases hmount with hmount | hmount
    · exact hspace (below_space hplaced hbelow htop hmount)
    · obtain ⟨old, hold, rfl⟩ := Option.map_eq_some_iff.mp hmount
      have hin : old.space = top.space := below_space hplaced hbelow htop hold
      exact hspace hin
  exact ⟨fun number mount hmount hspace => (hsame number mount (Or.inl hmount) hspace).trans hmount,
    fun number mount hmount hspace =>
      (hsame number mount (Or.inr hmount) hspace).symm.trans hmount⟩

theorem onlyIn_copied {space' : ℕ} {copy : ℕ → ℕ}
    (hcopied : Copied forest space space' copy forest') : OnlyIn forest forest' space' := by
  refine ⟨fun number mount hmount _ => hcopied.kept number mount hmount,
    fun number mount hmount hspace => ?_⟩
  cases hold : forest number with
  | some old => rw [← hmount, hcopied.kept number old hold]
  | none =>
    obtain ⟨original, old, hfound, hin, rfl⟩ := hcopied.only number mount hold hmount
    rw [(hcopied.copied original old hfound hin).2] at hmount
    obtain rfl := Option.some.inj hmount
    exact absurd rfl hspace

theorem onlyIn_dissolved (hdissolved : Dissolved forest space forest') :
    OnlyIn forest forest' space :=
  ⟨hdissolved.kept, fun number mount hmount _ => (hdissolved.only number mount hmount).1⟩

end Foundations.MountForest
