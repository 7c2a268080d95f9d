import Sandcamp.Foundations.Seclusion
import Sandcamp.Sandrun.Syscalls

/-!
# Mount namespaces of processes

Which namespace every process is in, which mount its root and its working directory are on, and
what the calls that concern the mounts may make of this. A path is looked up from the root of the
process, so it leads to some mount below that. All processes make the calls of `linux.rs` and no
others: there is no `umount` of a path, no `rmdir`, no `rename`, no `setns` and no `chroot`. Of files
only one is ever removed, and runs in which it carries a mount in some namespace are left out, as
`unlink` takes that mount off; the other calls on files change nothing here.
-/

namespace Sandcamp.Sandrun
open Foundations Foundations.MountForest

/-- Where a process is. -/
structure Seat where
  space : ℕ
  root : ℕ
  cwd : ℕ

/-- The mounts of all namespaces, and the processes that are there. -/
structure Namespaces (ι β : Type) where
  forest : MountForest β
  seat : ι → Option Seat

/-- The call changes nothing here: it is about something else, or it fails. A file that is removed
carries no mount. -/
def Unchanging : (o : Syscall) → Reply o → Prop
  | .unshare, reply | .mount .., reply | .chdir _, reply | .pivotRoot, reply | .detach, reply =>
    reply = false
  | _, _ => True

section Calls

variable {ι β : Type} [DecidableEq ι]

/-- A path leads to a mount below the root, and `/` to the root itself. -/
def Locates (forest : MountForest β) (seat : Seat) (path : Bytes) (place : ℕ) : Prop :=
  Below forest seat.root place ∧ (path = lit "/" → place = seat.root)

/-- What `mount` does with these flags, in the order the kernel looks at them. -/
inductive MountDone (forest : MountForest β) (seat : Seat) (place : ℕ) (flags : MountFlags)
    (forest' : MountForest β) : Prop
  | remount (hremount : flags.msRemount = true) (hchanged : Changed forest place forest')
  | bind (hremount : flags.msRemount = false) (hbind : flags.msBind = true)
      (hmounted : Mounted forest place (Below forest seat.root) forest')
  | makePrivate (hremount : flags.msRemount = false) (hbind : flags.msBind = false)
      (hprivate : flags.msPrivate = true ∧ flags.msRec = true)
      (hmade : MadePrivate forest place forest')
  | regroup (hremount : flags.msRemount = false) (hbind : flags.msBind = false)
      (hgroups : ¬(flags.msPrivate = true ∧ flags.msRec = true) ∧
        (flags.msPrivate = true ∨ flags.msShared = true ∨ flags.msSlave = true))
      (hregrouped : Regrouped forest place forest')
  | new (hremount : flags.msRemount = false) (hbind : flags.msBind = false)
      (hgroups : ¬(flags.msPrivate = true ∨ flags.msShared = true ∨ flags.msSlave = true))
      (hmounted : Mounted forest place (fun _ => False) forest')

/-- Whoever is on the old root is on the new one. -/
def Seat.moved (old new : ℕ) (seat : Seat) : Seat :=
  { seat with
    root := if seat.root = old then new else seat.root
    cwd := if seat.cwd = old then new else seat.cwd }

/-- What a call with this answer makes of the namespaces. Runs in which a mount is taken off that
somebody has as the root or the working directory are left out. -/
inductive Namespaces.Effect (who : ι) (k : Namespaces ι β) :
    (o : Syscall) → Reply o → Namespaces ι β → Prop
  | nothing {o : Syscall} {reply : Reply o} : Unchanging o reply → Effect who k o reply k
  | unshare {seat : Seat} {space' : ℕ} {copy : ℕ → ℕ} {forest' : MountForest β} :
      k.seat who = some seat → Copied k.forest seat.space space' copy forest' →
      Effect who k .unshare true
        ⟨forest', Function.update k.seat who (some ⟨space', copy seat.root, copy seat.cwd⟩)⟩
  | mount {seat : Seat} {place : ℕ} {forest' : MountForest β} {source filesystem data : Option Bytes}
      {target : Bytes} {flags : MountFlags} : k.seat who = some seat →
      Locates k.forest seat target place → MountDone k.forest seat place flags forest' →
      Effect who k (.mount source target filesystem flags data) true ⟨forest', k.seat⟩
  | chdir {seat : Seat} {place : ℕ} {path : Bytes} : k.seat who = some seat →
      Locates k.forest seat path place → Effect who k (.chdir path) true
        ⟨k.forest, Function.update k.seat who (some { seat with cwd := place })⟩
  | pivotRoot {seat : Seat} {forest' : MountForest β} : k.seat who = some seat →
      Pivoted k.forest seat.root seat.cwd forest' → Effect who k .pivotRoot true
        ⟨forest', fun i => (k.seat i).map (Seat.moved seat.root seat.cwd)⟩
  | detach {seat : Seat} {top : ℕ} {forest' : MountForest β} : k.seat who = some seat →
      Top k.forest seat.cwd top → Detached k.forest top forest' →
      (∀ i other, k.seat i = some other → (forest' other.root).isSome ∧ (forest' other.cwd).isSome) →
      Effect who k .detach true ⟨forest', k.seat⟩

/-- The end of a process, or of what is modelled of it: a namespace that nobody else is in goes
away with it. -/
inductive Namespaces.Leave (who : ι) (k : Namespaces ι β) : Namespaces ι β → Prop
  | stays : Leave who k ⟨k.forest, Function.update k.seat who none⟩
  | dissolves {seat : Seat} {forest' : MountForest β} : k.seat who = some seat →
      (∀ i other, i ≠ who → k.seat i = some other → other.space ≠ seat.space) →
      Dissolved k.forest seat.space forest' →
      Leave who k ⟨forest', Function.update k.seat who none⟩

def Namespaces.arena : Arena ι (Namespaces ι β) Syscall Reply := ⟨Effect, Leave⟩

end Calls

end Sandcamp.Sandrun
