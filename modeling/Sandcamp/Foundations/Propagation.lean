import Mathlib.Data.Nat.Notation
import Mathlib.Logic.Basic

/-!
# Mount namespaces and propagation

The mounts of all namespaces form a forest: a mount has a number, lies in a namespace and, unless
it is the root of one, on a parent of the same namespace. A mount in a peer group hands on what is
mounted on it to its peers and to the mounts that have the group as their master, and so on from
there. The kernel's own root file system, which everything in a namespace lies on and no path leads
to, is left out. The changes are relations: how many mounts a call makes, and which numbers they
get, is left open.
-/

namespace Foundations

structure Mount (β : Type) where
  space : ℕ
  parent : Option ℕ
  /-- It lies on the root of its parent. -/
  onRoot : Bool
  group : Option ℕ
  master : Option ℕ
  body : β

/-- It neither hands on nor receives mounts. -/
def Mount.Lone {β : Type} (mount : Mount β) : Prop := mount.group = none ∧ mount.master = none

/-- `MS_PRIVATE`. -/
def Mount.alone {β : Type} (mount : Mount β) : Mount β := { mount with group := none, master := none }

abbrev MountForest (β : Type) : Type := ℕ → Option (Mount β)

namespace MountForest

variable {β : Type}

inductive Below (forest : MountForest β) (root : ℕ) : ℕ → Prop
  | refl : Below forest root root
  | child {number parent : ℕ} {mount : Mount β} : forest number = some mount →
      mount.parent = some parent → Below forest root parent → Below forest root number

/-- What is mounted on a member of the first group is handed on to the second one. -/
inductive Feeds (forest : MountForest β) : ℕ → ℕ → Prop
  | refl (group : ℕ) : Feeds forest group group
  | slave {number group next last : ℕ} {mount : Mount β} : forest number = some mount →
      mount.master = some group → mount.group = some next → Feeds forest next last →
      Feeds forest group last

/-- What is mounted on a member of the group is mounted here too. -/
def Receives (forest : MountForest β) (group number : ℕ) : Prop :=
  ∃ mount peers, forest number = some mount ∧ Feeds forest group peers ∧
    (mount.group = some peers ∨ mount.master = some peers)

/-- Parents are there, and in the same namespace. -/
def Placed (forest : MountForest β) : Prop :=
  ∀ number mount parent, forest number = some mount → mount.parent = some parent →
    ∃ above, forest parent = some above ∧ above.space = mount.space

/-! ### Changes -/

/-- Where a mount may come that is new: on `place`, where `place` hands it on to, or on another
new one. -/
inductive Comes (forest forest' : MountForest β) (place : ℕ) : ℕ → Prop
  | on {number : ℕ} {mount : Mount β} : forest number = none → forest' number = some mount →
      mount.parent = some place → Comes forest forest' place number
  | received {number parent group : ℕ} {mount at' : Mount β} : forest number = none →
      forest' number = some mount → mount.parent = some parent → forest place = some at' →
      at'.group = some group → Receives forest group parent → Comes forest forest' place number
  | inside {number parent : ℕ} {mount : Mount β} : forest number = none →
      forest' number = some mount → mount.parent = some parent →
      Comes forest forest' place parent → Comes forest forest' place number

/-- Something is mounted on `place`: a new filesystem, or copies of the sources. On a mount that
hands nothing on it is in a group only as its source is. -/
structure Mounted (forest : MountForest β) (place : ℕ) (source : ℕ → Prop)
    (forest' : MountForest β) : Prop where
  kept : ∀ number mount, forest number = some mount → forest' number = some mount
  comes : ∀ number mount, forest number = none → forest' number = some mount →
    Comes forest forest' place number
  placed : ∀ number mount parent, forest number = none → forest' number = some mount →
    mount.parent = some parent → ∃ above, forest' parent = some above ∧ above.space = mount.space
  grouped : ∀ at', forest place = some at' → at'.group = none → ∀ number mount,
    forest number = none → forest' number = some mount → mount.Lone ∨ ∃ copied original,
      source copied ∧ forest copied = some original ∧ mount.group = original.group ∧
        mount.master = original.master

/-- What lies from `top` on is taken off, and what lies where its parent hands mounts on to. -/
structure Detached (forest : MountForest β) (top : ℕ) (forest' : MountForest β) : Prop where
  kept : ∀ number mount, forest' number = some mount → forest number = some mount
  gone : ∀ number, Below forest top number → forest' number = none
  only : ∀ number mount, forest number = some mount → forest' number = none →
    Below forest top number ∨ ∃ taken parent at' group receiver child below,
      forest top = some taken ∧ taken.parent = some parent ∧ forest parent = some at' ∧
        at'.group = some group ∧ Receives forest group receiver ∧ forest child = some below ∧
          below.parent = some receiver ∧ Below forest child number
  placed : Placed forest'

/-- `new`, which is not shared, becomes the root of the namespace, and the old root lies on it. -/
structure Pivoted (forest : MountForest β) (root new : ℕ) (forest' : MountForest β) : Prop where
  below : Below forest root new
  other : new ≠ root
  lifted : ∃ mount, forest new = some mount ∧ mount.group = none ∧
    forest' new = some { mount with parent := none, onRoot := false }
  lowered : ∃ mount, forest root = some mount ∧ mount.parent = none ∧
    forest' root = some { mount with parent := some new, onRoot := true }
  kept : ∀ number, number ≠ new → number ≠ root → forest' number = forest number

/-- `MS_REC | MS_PRIVATE`. -/
structure MadePrivate (forest : MountForest β) (root : ℕ) (forest' : MountForest β) : Prop where
  alone : ∀ number, Below forest root number → forest' number = (forest number).map Mount.alone
  kept : ∀ number, ¬Below forest root number → forest' number = forest number

/-- The groups of mounts below a place are changed in any other way. -/
structure Regrouped (forest : MountForest β) (place : ℕ) (forest' : MountForest β) : Prop where
  regrouped : ∀ number, ∃ group master, forest' number =
    (forest number).map fun mount => { mount with group := group, master := master }
  kept : ∀ number, ¬Below forest place number → forest' number = forest number

/-- A namespace is copied into a new one: every copy is in the groups of its original. -/
structure Copied (forest : MountForest β) (space space' : ℕ) (copy : ℕ → ℕ)
    (forest' : MountForest β) : Prop where
  unused : ∀ number mount, forest number = some mount → mount.space ≠ space'
  kept : ∀ number mount, forest number = some mount → forest' number = some mount
  copied : ∀ number mount, forest number = some mount → mount.space = space →
    forest (copy number) = none ∧
      forest' (copy number) = some { mount with space := space', parent := mount.parent.map copy }
  only : ∀ number mount, forest number = none → forest' number = some mount →
    ∃ original old, forest original = some old ∧ old.space = space ∧ copy original = number

/-- What one mount shows is changed. -/
structure Changed (forest : MountForest β) (number : ℕ) (forest' : MountForest β) : Prop where
  changed : ∃ mount body, forest number = some mount ∧
    forest' number = some { mount with body := body }
  kept : ∀ other, other ≠ number → forest' other = forest other

/-- A namespace that nobody is in any more goes away. -/
structure Dissolved (forest : MountForest β) (space : ℕ) (forest' : MountForest β) : Prop where
  kept : ∀ number mount, forest number = some mount → mount.space ≠ space →
    forest' number = some mount
  only : ∀ number mount, forest' number = some mount →
    forest number = some mount ∧ mount.space ≠ space

/-- The mount on top of everything that lies on the root of this one. -/
inductive Top (forest : MountForest β) : ℕ → ℕ → Prop
  | self {number : ℕ} : (∀ child mount, forest child = some mount →
      ¬(mount.parent = some number ∧ mount.onRoot = true)) → Top forest number number
  | upon {number child top : ℕ} {mount : Mount β} : forest child = some mount →
      mount.parent = some number → mount.onRoot = true → Top forest child top →
      Top forest number top

/-! ### What lies below -/

variable {forest forest' : MountForest β} {root place number space : ℕ} {mount : Mount β}

theorem Below.trans {middle : ℕ} (h : Below forest root middle) (h' : Below forest middle number) :
    Below forest root number := by
  induction h' with
  | refl => exact h
  | child hmount hparent _ ih => exact .child hmount hparent ih

theorem below_space (hplaced : Placed forest) (h : Below forest root number) {top : Mount β}
    (htop : forest root = some top) (hmount : forest number = some mount) :
    mount.space = top.space := by
  induction h generalizing mount with
  | refl => rw [Option.some.inj (hmount.symm.trans htop)]
  | child hfound hparent _ ih =>
    obtain rfl := Option.some.inj (hmount.symm.trans hfound)
    obtain ⟨above, habove, hspace⟩ := hplaced _ _ _ hfound hparent
    rw [← hspace]
    exact ih habove

/-- Only roots of namespaces and mounts that are there lie below anything. -/
theorem below_found {top : Mount β} (h : Below forest root number) (htop : forest root = some top) :
    ∃ mount, forest number = some mount := by
  cases h with
  | refl => exact ⟨top, htop⟩
  | child hmount _ _ => exact ⟨_, hmount⟩

/-- Two mounts that something lies below: one lies below the other. -/
theorem below_linear {one other : ℕ} (h : Below forest one number) (h' : Below forest other number) :
    Below forest one other ∨ Below forest other one := by
  induction h with
  | refl => exact Or.inr h'
  | @child number parent mount hmount hparent hbelow ih =>
    cases h' with
    | refl => exact Or.inl (.child hmount hparent hbelow)
    | child hmount' hparent' hbelow' =>
      obtain rfl := Option.some.inj (hmount.symm.trans hmount')
      obtain rfl := Option.some.inj (hparent.symm.trans hparent')
      exact ih hbelow'

theorem top_below {top : ℕ} (h : Top forest number top) : Below forest number top := by
  induction h with
  | self _ => exact .refl
  | upon hchild hparent _ _ ih => exact Below.trans (.child hchild hparent .refl) ih

/-! ### Mounts stay in their namespaces -/

/-- The mount is still there, and still a root of its namespace if it was one. -/
def Stays (forest forest' : MountForest β) (number : ℕ) : Prop :=
  ∀ mount, forest number = some mount → ∃ mount', forest' number = some mount' ∧
    mount'.space = mount.space ∧ (mount.parent = none → mount'.parent = none)

theorem stays_of_kept (h : ∀ mount, forest number = some mount → forest' number = some mount) :
    Stays forest forest' number :=
  fun mount hmount => ⟨mount, h mount hmount, rfl, id⟩

theorem stays_detached (hdetached : Detached forest place forest')
    (hsome : (forest' number).isSome) : Stays forest forest' number := by
  intro mount hmount
  obtain ⟨left, hleft⟩ := Option.isSome_iff_exists.mp hsome
  obtain rfl := Option.some.inj (hmount.symm.trans (hdetached.kept number left hleft))
  exact ⟨mount, hleft, rfl, id⟩

/-- No mount leaves its namespace. -/
theorem found_pivoted {new : ℕ} (hpivoted : Pivoted forest root new forest')
    (hmount : forest number = some mount) :
    ∃ left, forest' number = some left ∧ left.space = mount.space := by
  obtain ⟨lifted, hlifted, -, hnew⟩ := hpivoted.lifted
  obtain ⟨lowered, hlowered, -, hold⟩ := hpivoted.lowered
  by_cases hnumber : number = new
  · subst hnumber
    obtain rfl := Option.some.inj (hmount.symm.trans hlifted)
    exact ⟨_, hnew, rfl⟩
  · by_cases hroot : number = root
    · subst hroot
      obtain rfl := Option.some.inj (hmount.symm.trans hlowered)
      exact ⟨_, hold, rfl⟩
    · exact ⟨mount, (hpivoted.kept number hnumber hroot).trans hmount, rfl⟩

theorem stays_pivoted {new : ℕ} (hpivoted : Pivoted forest root new forest')
    (hne : number ≠ root) : Stays forest forest' number := by
  obtain ⟨lifted, hlifted, -, hnew⟩ := hpivoted.lifted
  intro mount hmount
  by_cases hnumber : number = new
  · subst hnumber
    obtain rfl := Option.some.inj (hmount.symm.trans hlifted)
    exact ⟨_, hnew, rfl, fun _ => rfl⟩
  · exact ⟨mount, (hpivoted.kept number hnumber hne).trans hmount, rfl, id⟩

theorem stays_madePrivate (hprivate : MadePrivate forest place forest') (number : ℕ) :
    Stays forest forest' number := by
  intro mount hmount
  by_cases hbelow : Below forest place number
  · have hafter := hprivate.alone number hbelow
    rw [hmount] at hafter
    exact ⟨_, hafter, rfl, id⟩
  · exact ⟨mount, (hprivate.kept number hbelow).trans hmount, rfl, id⟩

theorem stays_regrouped (hregrouped : Regrouped forest place forest') (number : ℕ) :
    Stays forest forest' number := by
  intro mount hmount
  obtain ⟨group, master, hafter⟩ := hregrouped.regrouped number
  rw [hmount] at hafter
  exact ⟨_, hafter, rfl, id⟩

theorem stays_changed (hchanged : Changed forest place forest') (number : ℕ) :
    Stays forest forest' number := by
  obtain ⟨changed, body, hfound, hafter⟩ := hchanged.changed
  intro mount hmount
  by_cases hnumber : number = place
  · subst hnumber
    obtain rfl := Option.some.inj (hmount.symm.trans hfound)
    exact ⟨_, hafter, rfl, id⟩
  · exact ⟨mount, (hchanged.kept number hnumber).trans hmount, rfl, id⟩

/-! ### Parents stay in place -/

section Placing

variable (hplaced : Placed forest)
include hplaced

theorem placed_mounted {source : ℕ → Prop} (hmounted : Mounted forest place source forest') :
    Placed forest' := by
  intro number mount parent hmount hparent
  cases hold : forest number with
  | none => exact hmounted.placed number mount parent hold hmount hparent
  | some old =>
    have hsame := hmounted.kept number old hold
    rw [hmount] at hsame
    obtain rfl := Option.some.inj hsame
    obtain ⟨above, habove, hspace⟩ := hplaced number mount parent hold hparent
    exact ⟨above, hmounted.kept parent above habove, hspace⟩

theorem placed_pivoted {new : ℕ} (hpivoted : Pivoted forest root new forest') : Placed forest' := by
  obtain ⟨lifted, hlifted, -, hnew⟩ := hpivoted.lifted
  obtain ⟨lowered, hlowered, -, hold⟩ := hpivoted.lowered
  intro number mount parent hmount hparent
  by_cases hnumber : number = new
  · subst hnumber
    rw [hnew] at hmount
    obtain rfl := Option.some.inj hmount
    cases hparent
  · by_cases hroot : number = root
    · subst hroot
      rw [hold] at hmount
      obtain rfl := Option.some.inj hmount
      obtain rfl := Option.some.inj hparent
      obtain ⟨left, hleft, hspace⟩ := found_pivoted hpivoted hlifted
      have hin : lifted.space = lowered.space :=
        below_space hplaced hpivoted.below hlowered hlifted
      exact ⟨left, hleft, hspace.trans hin⟩
    · rw [hpivoted.kept number hnumber hroot] at hmount
      obtain ⟨above, habove, hspace⟩ := hplaced number mount parent hmount hparent
      obtain ⟨left, hleft, hsame⟩ := found_pivoted hpivoted habove
      exact ⟨left, hleft, hsame.trans hspace⟩

theorem placed_madePrivate (hprivate : MadePrivate forest root forest') : Placed forest' := by
  have hstays : ∀ number, ∃ change : Mount β → Mount β,
      (∀ mount, (change mount).space = mount.space ∧ (change mount).parent = mount.parent) ∧
        forest' number = (forest number).map change := by
    intro number
    by_cases hbelow : Below forest root number
    · exact ⟨Mount.alone, fun _ => ⟨rfl, rfl⟩, hprivate.alone number hbelow⟩
    · exact ⟨id, fun _ => ⟨rfl, rfl⟩, by rw [hprivate.kept number hbelow, Option.map_id_fun, id]⟩
  intro number mount parent hmount hparent
  obtain ⟨change, hchange, hafter⟩ := hstays number
  rw [hafter] at hmount
  obtain ⟨old, hold, rfl⟩ := Option.map_eq_some_iff.mp hmount
  obtain ⟨above, habove, hspace⟩ :=
    hplaced number old parent hold ((hchange old).2.symm.trans hparent)
  obtain ⟨change', hchange', hafter'⟩ := hstays parent
  refine ⟨change' above, ?_, ?_⟩
  · rw [hafter', habove, Option.map_some]
  · rw [(hchange' above).1, (hchange old).1, hspace]

theorem placed_regrouped (hregrouped : Regrouped forest root forest') : Placed forest' := by
  intro number mount parent hmount hparent
  obtain ⟨group, master, hafter⟩ := hregrouped.regrouped number
  rw [hafter] at hmount
  obtain ⟨old, hold, rfl⟩ := Option.map_eq_some_iff.mp hmount
  obtain ⟨above, habove, hspace⟩ := hplaced number old parent hold hparent
  obtain ⟨group', master', hafter'⟩ := hregrouped.regrouped parent
  rw [habove] at hafter'
  exact ⟨_, hafter', hspace⟩

theorem placed_copied {space' : ℕ} {copy : ℕ → ℕ}
    (hcopied : Copied forest space space' copy forest') : Placed forest' := by
  intro number mount parent hmount hparent
  cases hold : forest number with
  | some old =>
    have hsame := hcopied.kept number old hold
    rw [hmount] at hsame
    obtain rfl := Option.some.inj hsame
    obtain ⟨above, habove, hspace⟩ := hplaced number mount parent hold hparent
    exact ⟨above, hcopied.kept parent above habove, hspace⟩
  | none =>
    obtain ⟨original, old, hfound, hin, rfl⟩ := hcopied.only number mount hold hmount
    rw [(hcopied.copied original old hfound hin).2] at hmount
    obtain rfl := Option.some.inj hmount
    obtain ⟨above, habove, rfl⟩ := Option.map_eq_some_iff.mp hparent
    obtain ⟨parentMount, hparentMount, hspace⟩ := hplaced original old above hfound habove
    exact ⟨_, (hcopied.copied above parentMount hparentMount (hspace.trans hin)).2, rfl⟩

theorem placed_changed (hchanged : Changed forest place forest') : Placed forest' := by
  obtain ⟨mount, body, hmount, hafter⟩ := hchanged.changed
  have hstays : ∀ number found, forest' number = some found → ∃ old, forest number = some old ∧
      old.space = found.space ∧ old.parent = found.parent := by
    intro number found hfound
    by_cases hnumber : number = place
    · subst hnumber
      rw [hafter] at hfound
      obtain rfl := Option.some.inj hfound
      exact ⟨mount, hmount, rfl, rfl⟩
    · exact ⟨found, (hchanged.kept number hnumber).symm.trans hfound, rfl, rfl⟩
  intro number found parent hfound hparent
  obtain ⟨old, hold, hspace, hsame⟩ := hstays number found hfound
  obtain ⟨above, habove, hin⟩ := hplaced number old parent hold (hsame.trans hparent)
  by_cases hnumber : parent = place
  · subst hnumber
    obtain rfl := Option.some.inj (habove.symm.trans hmount)
    exact ⟨_, hafter, hin.trans hspace⟩
  · exact ⟨above, (hchanged.kept parent hnumber).trans habove, hin.trans hspace⟩

theorem placed_dissolved (hdissolved : Dissolved forest space forest') : Placed forest' := by
  intro number mount parent hmount hparent
  obtain ⟨hold, hspace⟩ := hdissolved.only number mount hmount
  obtain ⟨above, habove, hin⟩ := hplaced number mount parent hold hparent
  exact ⟨above, hdissolved.kept parent above habove (hin.trans_ne hspace), hin⟩

end Placing

end MountForest

end Foundations
