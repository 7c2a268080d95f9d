import Sandcamp.Campd.LaunchRules
import Sandcamp.Campd.ShutdownRules

/-!
# Interactions that leave an assertion alone

Most interactions only shift the kernel and tell of themselves. An assertion that looks at neither
is kept by all of them (`IdleIn`), and what is left to prove of `spawn` and of `terminate_groups`
is what they do besides.
-/

namespace Sandcamp.Campd
open Foundations

/-- What the surroundings and the system calls of campd make of the kernel. -/
inductive Kernel.Shift (k : Kernel) : Kernel → Prop
  | events (events : List KernelEvent) : Shift k (k.applyAll events)
  | channel (rest : List ProbeEvent) : Shift k { k with channel := rest }
  | release (pid : ℕ) : Shift k (k.release pid)
  | spawn (pid : ℕ) : Shift k (k.spawnChild pid).2
  | worker (processIndex : ℕ) : Shift k { k with workers := processIndex :: k.workers }

theorem Kernel.shift_waitAny (k : Kernel) (answer : Kernel.Answer) :
    k.Shift (k.waitAny answer).2 := by
  cases answer with
  | interrupted => exact .channel k.channel
  | failed error => exact .channel k.channel
  | choose n =>
    simp only [Kernel.waitAny]
    split
    · exact .release _
    · split
      · exact .channel k.channel
      · exact .channel k.channel

/-- A signal is observed only where it is. -/
def Action.Honest (kernel : Kernel) : Action → Prop
  | .signalObserved signal => signal = kernel.receivedSignal ∧ signal ≠ 0
  | _ => True

/-- Actions of the interactions themselves. -/
def Action.idle : Action → Bool
  | .forked .. | .abandoned _ | .signalled .. | .signalObserved _ => true
  | _ => false

structure IdleIn (L : Program.Logic World Turn Entry (Failure RuntimeError))
    (P : Program.Assertion World Entry) : Prop where
  shift : ∀ w t kernel, w.kernel.Shift kernel → P w t →
    Program.Leads L.step P w t { w with kernel := kernel } t
  told : ∀ w t action, action.idle = true → action.Honest w.kernel → P w t →
    Program.Leads L.step P w t w (⟨action, w⟩ :: t)
  stop : ∀ w t, P w t → L.stop w t

variable {L : Program.Logic World Turn Entry (Failure RuntimeError)}
  {P Q R : Program.Assertion World Entry} (hP : IdleIn L P)
include hP

theorem IdleIn.steady : SteadyIn L P where
  turn := fun w t events h => hP.shift w t _ (.events events) h
  stop := hP.stop

theorem idle_signalGroup (group signal : ℕ) : L.Holds P (signalGroup group signal) fun _ => P :=
  holds_signalGroup group signal hP.steady fun w t h => hP.told w t _ rfl trivial h

theorem idle_receivedSignal : L.Holds P receivedSignal fun _ => P :=
  holds_receivedSignal hP.steady (fun _ _ h => h)
    fun w t h hsome => hP.told w t _ rfl ⟨rfl, hsome⟩ h

theorem idle_tryReceive : L.Holds P tryReceive fun _ => P :=
  holds_tryReceive hP.steady (fun _ _ h => h)
    fun w t _ rest _ h => hP.shift w t _ (.channel rest) h

theorem idle_waitAny : L.Holds P waitAny fun _ => P :=
  holds_waitAny hP.steady fun w t answer h => hP.shift w t _ (Kernel.shift_waitAny _ answer) h

/-! ### `spawn` -/

theorem idle_commandSpawn (command : Command) (user : Option NumericUser) :
    L.Holds P (commandSpawn command user) (Returned (fun _ => P) fun _ => P) :=
  holds_commandSpawn command user hP.steady (fun _ _ h => h)
    (fun pid w t _ h => hP.shift w t _ (.spawn pid) h)
    fun _ _ w t h => hP.told w t _ rfl trivial h

theorem idle_spawnProbeWorker (index : ℕ) :
    L.Holds P (spawnProbeWorker index) (Returned (fun _ => P) fun _ => P) :=
  holds_spawnProbeWorker index hP.steady (fun _ _ h => h)
    fun w t h => hP.shift w t _ (.worker index) h

theorem idle_reapPid (pid : ℕ) : L.Holds P (reapPid pid) fun _ => P :=
  holds_reapPid pid hP.steady (fun _ _ h => h) fun w t h => hP.shift w t _ (.release pid) h

/-- What is left of `spawn` is its call, its end without a process and the registration. -/
theorem idle_spawn {F : Bytes → Program.Assertion World Entry}
    {S : ℕ → Program.Assertion World Entry} (process : LaunchProcess) (sandrun : Bytes)
    (hcalled : ∀ w t, R w t → Program.Leads L.step P w t w (⟨.spawning process, w⟩ :: t))
    (hcommand : ∀ e, buildCommand process sandrun = .error e → ∀ w t, P w t → L.raised e w t)
    (hfinished : ∀ error w t, P w t →
      Program.Leads L.step (F error) w t w (⟨.finished .spawn, w⟩ :: t))
    (hregister : ∀ group, L.Holds P (register process group) S) :
    L.Holds R (spawn process sandrun) (Returned F S) :=
  holds_spawn process sandrun (A := fun _ => P) (D := fun _ => P) (B := fun _ => P) hcalled hcommand
    (idle_commandSpawn hP) (fun _ => idle_spawnProbeWorker hP)
    (fun _ w t h => hP.told w t _ rfl trivial h) (fun _ => idle_signalGroup hP _ _)
    (fun _ => idle_reapPid hP _) hfinished hregister

/-! ### `terminate_groups` -/

variable (hasked : ∀ w t group, P w t → Program.Leads L.step P w t w
  (⟨.groupObserved group (w.kernel.groupExists group), w⟩ :: t))
include hasked

theorem idle_awaitGroups (deadline : ℕ) (groups : List ℕ) :
    L.Holds P (awaitGroups deadline groups) fun _ => P :=
  holds_awaitGroups (I := fun _ => P) deadline groups (fun _ => hP.steady) (fun _ _ h => h)
    (fun _ _ _ _ h => h) (fun _ w t answer h => hP.shift w t _ (Kernel.shift_waitAny _ answer) h)
    fun remaining => holds_retainExisting (I := fun _ _ => P) remaining (fun _ _ => hP.steady)
      fun _ _ group _ _ w t h => hasked w t group h

theorem idle_terminateGroups (groups : List ℕ) (signal : ℕ)
    (hcalled : ∀ w t, R w t → Program.Leads L.step P w t w (⟨.terminating groups signal, w⟩ :: t))
    (hterminated : ∀ w t, P w t → Program.Leads L.step Q w t w (⟨.terminated groups, w⟩ :: t)) :
    L.Holds R (terminateGroups groups signal) fun _ => Q := by
  have hsignal : ∀ signal groups, L.Holds P
      (Program.each (fun group => signalGroup group signal) groups) fun _ => P :=
    fun signal groups => holds_signalEach (I := fun _ => P) signal groups (fun _ => hP.steady)
      fun _ _ _ _ w t h => hP.told w t _ rfl trivial h
  exact holds_terminateGroups (B := fun _ => P) (C := fun _ => P) groups signal hcalled
    (hsignal signal groups) hP.steady
    (fun _ => L.pre (idle_awaitGroups hP hasked _ groups) fun _ _ h => h.2) (hsignal sigkill)
    (fun _ => hP.steady) (fun remaining deadline => idle_awaitGroups hP hasked deadline remaining)
    hterminated

end Sandcamp.Campd
