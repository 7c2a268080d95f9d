import Sandcamp.Foundations.Bytes

/-!
# The kernel campd runs on

As much of Linux as the supervisor can observe: a process table with process
groups, the clock, the pending signal number, and the channel the probe workers
send on. A process group is a number together with a generation: the number of a
group that has vanished may come back, the group does not. `KernelEvent` is what
happens without campd; an event whose precondition does not hold does nothing.
-/

namespace Sandcamp.Campd
open Foundations

structure GroupId where
  number : ℕ
  generation : ℕ
  deriving DecidableEq, Repr

structure KernelProcess where
  pid : ℕ
  group : GroupId
  /-- campd is its parent, by fork or as subreaper. -/
  child : Bool
  /-- The wait status of a zombie. -/
  status : Option ℕ
  deriving DecidableEq, Repr

structure ProbeEvent where
  processIndex : ℕ
  success : Bool
  deriving DecidableEq, Repr

structure Kernel where
  table : List KernelProcess
  nextGeneration : ℕ
  /-- Nanoseconds of the monotonic clock. -/
  clock : ℕ
  /-- `RECEIVED_SIGNAL`, which the signal handler stores to. -/
  receivedSignal : ℕ
  /-- The process indices probe workers were started for. -/
  workers : List ℕ
  channel : List ProbeEvent
  deriving DecidableEq, Repr

inductive KernelEvent where
  | fork (parent pid : ℕ)
  | newGroup (pid : ℕ)
  | joinGroup (pid member : ℕ)
  | exit (pid status : ℕ)
  /-- Its parent has died: campd is the subreaper. -/
  | adopt (pid : ℕ)
  /-- A zombie is waited for by a parent other than campd. -/
  | collect (pid : ℕ)
  | tick (nanoseconds : ℕ)
  | signal (number : ℕ)
  | probe (processIndex : ℕ) (success : Bool)
  deriving DecidableEq, Repr

namespace Kernel

/-- `kill(-group, 0)` finds a member; a zombie is one until it is waited for. -/
def groupExists (k : Kernel) (group : ℕ) : Bool := k.table.any fun p => p.group.number = group

/-- A number in use as pid or group number is not handed out. -/
def inUse (k : Kernel) (n : ℕ) : Bool :=
  k.table.any fun p => p.pid = n || p.group.number = n

/-- Change the process with this pid. -/
def update (k : Kernel) (pid : ℕ) (f : KernelProcess → KernelProcess) : Kernel :=
  { k with table := k.table.map fun p => if p.pid = pid then f p else p }

/-- The signals campd installs its handler for: HUP, INT, QUIT, TERM. -/
def handledSignals : List ℕ := [1, 2, 3, 15]

def apply (k : Kernel) : KernelEvent → Kernel
  | .fork parent pid =>
    match k.table.find? (fun p => p.pid = parent ∧ p.status = none) with
    | none => k
    | some p =>
      if k.inUse pid ∨ pid = 0 then k
      else { k with table := ⟨pid, p.group, false, none⟩ :: k.table }
  | .newGroup pid =>
    if k.groupExists pid then k
    else { k.update pid fun p => { p with group := ⟨pid, k.nextGeneration⟩ } with
      nextGeneration := k.nextGeneration + 1 }
  | .joinGroup pid member =>
    match k.table.find? (fun p => p.pid = member) with
    | none => k
    | some m => k.update pid fun p => { p with group := m.group }
  | .exit pid status =>
    k.update pid fun p => { p with status := some (p.status.getD status) }
  | .adopt pid => k.update pid fun p => { p with child := true }
  | .collect pid =>
    { k with table := k.table.filter fun p => ¬(p.pid = pid ∧ p.child = false ∧ p.status.isSome) }
  | .tick nanoseconds => { k with clock := k.clock + nanoseconds }
  | .signal number =>
    if number ∈ handledSignals then { k with receivedSignal := number } else k
  | .probe processIndex success =>
    if processIndex ∈ k.workers then
      { k with channel := k.channel ++ [⟨processIndex, success⟩] }
    else k

def applyAll (k : Kernel) (events : List KernelEvent) : Kernel := events.foldl apply k

/-! ### System calls -/

/-- How the surroundings settle an interaction of campd that may end in several ways. -/
inductive Answer where
  | choose (n : ℕ)
  | interrupted
  | failed (error : Bytes)
  deriving DecidableEq, Repr

inductive WaitResult where
  | reaped (pid status : ℕ)
  /-- There are children, none of them to be waited for. -/
  | running
  | interrupted
  /-- `ECHILD`. -/
  | noChildren
  | failed (error : Bytes)
  deriving DecidableEq, Repr

/-- The zombies of campd, with their statuses. -/
def zombies (k : Kernel) : List (ℕ × ℕ) :=
  k.table.filterMap fun p => if p.child then p.status.map fun status => (p.pid, status) else none

/-- The process is waited for. -/
def release (k : Kernel) (pid : ℕ) : Kernel :=
  { k with table := k.table.filter fun p => p.pid ≠ pid }

/-- `waitpid(-1, &status, WNOHANG)`: any zombie of campd. -/
def waitAny (k : Kernel) : Answer → WaitResult × Kernel
  | .interrupted => (.interrupted, k)
  | .failed error => (.failed error, k)
  | .choose n =>
    match k.zombies[n % k.zombies.length]? with
    | some (pid, status) => (.reaped pid status, k.release pid)
    | none => (if k.table.any (·.child) then .running else .noChildren, k)

/-- `fork`, `setpgid(0, 0)` and `exec` of a child: its pid is fresh and its group is new. -/
def spawnChild (k : Kernel) (pid : ℕ) : GroupId × Kernel :=
  let group : GroupId := ⟨pid, k.nextGeneration⟩
  (group, { k with
    table := ⟨pid, group, true, none⟩ :: k.table
    nextGeneration := k.nextGeneration + 1 })

/-! ### What campd can rely on -/

/-- The process is a child of campd that has not been waited for. -/
def HasChild (k : Kernel) (pid : ℕ) : Prop := ∃ p ∈ k.table, p.pid = pid ∧ p.child = true

/-- A group that has come into being and has no member left. -/
def Vanished (k : Kernel) (group : GroupId) : Prop :=
  group.generation < k.nextGeneration ∧ ∀ p ∈ k.table, p.group ≠ group

theorem mem_update {k : Kernel} {pid : ℕ} {f : KernelProcess → KernelProcess} {p : KernelProcess}
    (h : p ∈ k.table) : (if p.pid = pid then f p else p) ∈ (k.update pid f).table :=
  List.mem_map_of_mem (f := fun p => if p.pid = pid then f p else p) h

theorem hasChild_update {k : Kernel} {pid : ℕ} (target : ℕ) (f : KernelProcess → KernelProcess)
    (hpid : ∀ p, (f p).pid = p.pid) (hchild : ∀ p, p.child = true → (f p).child = true)
    (h : k.HasChild pid) : (k.update target f).HasChild pid := by
  obtain ⟨p, hp, rfl, hc⟩ := h
  refine ⟨_, mem_update hp, ?_, ?_⟩
  · split_ifs
    · exact hpid p
    · rfl
  · split_ifs
    · exact hchild p hc
    · exact hc

/-- No event but campd's own wait takes a child of campd out of the table. -/
theorem hasChild_apply {k : Kernel} {pid : ℕ} (event : KernelEvent) (h : k.HasChild pid) :
    (k.apply event).HasChild pid := by
  cases event with
  | fork parent new =>
    simp only [apply]
    split
    · exact h
    · split_ifs
      · exact h
      · obtain ⟨p, hp, hrest⟩ := h
        exact ⟨p, List.mem_cons_of_mem _ hp, hrest⟩
  | newGroup target =>
    simp only [apply]
    split_ifs
    · exact h
    · exact hasChild_update target _ (fun _ => rfl) (fun _ hc => hc) h
  | joinGroup target member =>
    simp only [apply]
    split
    · exact h
    · exact hasChild_update target _ (fun _ => rfl) (fun _ hc => hc) h
  | exit target status => exact hasChild_update target _ (fun _ => rfl) (fun _ hc => hc) h
  | adopt target => exact hasChild_update target _ (fun _ => rfl) (fun _ _ => rfl) h
  | collect target =>
    obtain ⟨p, hp, rfl, hc⟩ := h
    refine ⟨p, List.mem_filter.mpr ⟨hp, ?_⟩, rfl, hc⟩
    simp [hc]
  | tick nanoseconds => exact h
  | signal number =>
    simp only [apply]
    split_ifs <;> exact h
  | probe processIndex success =>
    simp only [apply]
    split_ifs <;> exact h

/-- A vanished group stays vanished: nobody can join it and its number comes back
only with a new generation. -/
theorem vanished_apply {k : Kernel} {group : GroupId} (event : KernelEvent)
    (h : k.Vanished group) : (k.apply event).Vanished group := by
  obtain ⟨hgen, hnone⟩ := h
  have hupdate : ∀ (target : ℕ) (f : KernelProcess → KernelProcess),
      (∀ p ∈ k.table, (f p).group ≠ group) → ∀ p ∈ (k.update target f).table, p.group ≠ group := by
    intro target f hf p hp
    obtain ⟨q, hq, rfl⟩ := List.mem_map.mp hp
    split_ifs
    · exact hf q hq
    · exact hnone q hq
  cases event with
  | fork parent new =>
    simp only [apply]
    split
    · exact ⟨hgen, hnone⟩
    · rename_i p hfind
      split_ifs
      · exact ⟨hgen, hnone⟩
      · refine ⟨hgen, fun q hq => ?_⟩
        rcases List.mem_cons.mp hq with rfl | hq
        · exact hnone p (List.mem_of_find?_eq_some hfind)
        · exact hnone q hq
  | newGroup target =>
    simp only [apply]
    split_ifs
    · exact ⟨hgen, hnone⟩
    · refine ⟨Nat.lt_succ_of_lt hgen, hupdate target _ fun p _ he => ?_⟩
      rw [← he] at hgen
      exact Nat.lt_irrefl _ hgen
  | joinGroup target member =>
    simp only [apply]
    split
    · exact ⟨hgen, hnone⟩
    · rename_i m hfind
      exact ⟨hgen, hupdate target _ fun _ _ => hnone m (List.mem_of_find?_eq_some hfind)⟩
  | exit target status => exact ⟨hgen, hupdate target _ hnone⟩
  | adopt target => exact ⟨hgen, hupdate target _ hnone⟩
  | collect target => exact ⟨hgen, fun p hp => hnone p (List.mem_of_mem_filter hp)⟩
  | tick nanoseconds => exact ⟨hgen, hnone⟩
  | signal number =>
    simp only [apply]
    split_ifs <;> exact ⟨hgen, hnone⟩
  | probe processIndex success =>
    simp only [apply]
    split_ifs <;> exact ⟨hgen, hnone⟩

/-- Neither the generations nor the clock go back. -/
theorem grows_apply (k : Kernel) (event : KernelEvent) :
    k.nextGeneration ≤ (k.apply event).nextGeneration ∧ k.clock ≤ (k.apply event).clock := by
  have hsame : k.nextGeneration ≤ k.nextGeneration ∧ k.clock ≤ k.clock :=
    ⟨Nat.le_refl _, Nat.le_refl _⟩
  cases event with
  | newGroup pid =>
    simp only [apply]
    split_ifs
    · exact hsame
    · exact ⟨Nat.le_succ _, Nat.le_refl _⟩
  | fork parent pid =>
    simp only [apply]
    split
    · exact hsame
    · split_ifs <;> exact hsame
  | joinGroup pid member =>
    simp only [apply]
    split <;> exact hsame
  | signal number =>
    simp only [apply]
    split_ifs <;> exact hsame
  | probe processIndex success =>
    simp only [apply]
    split_ifs <;> exact hsame
  | tick nanoseconds => exact ⟨Nat.le_refl _, Nat.le_add_right _ _⟩
  | exit pid status => exact hsame
  | adopt pid => exact hsame
  | collect pid => exact hsame

/-- What every event keeps, all events together keep. -/
theorem keeps_applyAll {P : Kernel → Prop} (hstep : ∀ k event, P k → P (k.apply event))
    {k : Kernel} (events : List KernelEvent) (h : P k) : P (k.applyAll events) := by
  induction events generalizing k with
  | nil => exact h
  | cons event events ih => exact ih (hstep k event h)

theorem hasChild_applyAll {k : Kernel} {pid : ℕ} (events : List KernelEvent)
    (h : k.HasChild pid) : (k.applyAll events).HasChild pid :=
  keeps_applyAll (P := fun k => k.HasChild pid) (fun _ event => hasChild_apply event) events h

theorem vanished_applyAll {k : Kernel} {group : GroupId} (events : List KernelEvent)
    (h : k.Vanished group) : (k.applyAll events).Vanished group :=
  keeps_applyAll (P := fun k => k.Vanished group) (fun _ event => vanished_apply event) events h

theorem nextGeneration_applyAll (k : Kernel) (events : List KernelEvent) :
    k.nextGeneration ≤ (k.applyAll events).nextGeneration :=
  keeps_applyAll (P := fun k' => k.nextGeneration ≤ k'.nextGeneration)
    (fun k' event h => h.trans (grows_apply k' event).1) events (Nat.le_refl _)

theorem clock_applyAll (k : Kernel) (events : List KernelEvent) :
    k.clock ≤ (k.applyAll events).clock :=
  keeps_applyAll (P := fun k' => k.clock ≤ k'.clock)
    (fun k' event h => h.trans (grows_apply k' event).2) events (Nat.le_refl _)

theorem hasChild_release {k : Kernel} {pid reaped : ℕ} (hne : pid ≠ reaped)
    (h : k.HasChild pid) : (k.release reaped).HasChild pid := by
  obtain ⟨p, hp, rfl, hc⟩ := h
  exact ⟨p, List.mem_filter.mpr ⟨hp, by simpa using hne⟩, rfl, hc⟩

theorem vanished_release {k : Kernel} {group : GroupId} (pid : ℕ) (h : k.Vanished group) :
    (k.release pid).Vanished group :=
  ⟨h.1, fun p hp => h.2 p (List.mem_of_mem_filter hp)⟩

/-- What the kernel does on its own keeps every child of campd and brings no
vanished group back. -/
structure Moves (k k' : Kernel) : Prop where
  child : ∀ pid, k.HasChild pid → k'.HasChild pid
  vanished : ∀ group, k.Vanished group → k'.Vanished group
  generation : k.nextGeneration ≤ k'.nextGeneration

theorem moves_applyAll (k : Kernel) (events : List KernelEvent) : k.Moves (k.applyAll events) :=
  ⟨fun _ => hasChild_applyAll events, fun _ => vanished_applyAll events,
    nextGeneration_applyAll k events⟩

theorem moves_channel (k : Kernel) (channel : List ProbeEvent) :
    k.Moves { k with channel := channel } :=
  ⟨fun _ h => h, fun _ h => h, Nat.le_refl _⟩

theorem moves_workers (k : Kernel) (workers : List ℕ) : k.Moves { k with workers := workers } :=
  ⟨fun _ h => h, fun _ h => h, Nat.le_refl _⟩

theorem moves_spawnChild (k : Kernel) (pid : ℕ) : k.Moves (k.spawnChild pid).2 where
  child := fun _ ⟨p, hp, h⟩ => ⟨p, List.mem_cons_of_mem _ hp, h⟩
  vanished := fun group h => by
    refine ⟨Nat.lt_succ_of_lt h.1, fun p hp he => ?_⟩
    rcases List.mem_cons.mp hp with rfl | hp
    · have hlt := h.1
      rw [← he] at hlt
      exact Nat.lt_irrefl _ hlt
    · exact h.2 p hp he
  generation := Nat.le_succ _

/-- A group whose number `kill(-group, 0)` does not find has no member. -/
theorem vanished_of_not_exists {k : Kernel} {group : GroupId}
    (hgen : group.generation < k.nextGeneration) (h : k.groupExists group.number = false) :
    k.Vanished group := by
  refine ⟨hgen, fun p hp he => ?_⟩
  have hex : k.groupExists group.number = true :=
    List.any_eq_true.mpr ⟨p, hp, by simp [he]⟩
  rw [h] at hex
  cases hex

end Kernel

end Sandcamp.Campd
