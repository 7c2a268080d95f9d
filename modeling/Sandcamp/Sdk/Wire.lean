import Sandcamp.Foundations.JsonText
import Sandcamp.Sdk.Accepted
import Sandcamp.Sdk.Render

/-!
# The rendered tree and its text

The tree is five levels deep, its numbers are 64-bit and its strings are those of the
declaration and ASCII names, so reading the text gives the tree back. Every process takes
at least one character of the payload.
-/

namespace Sandcamp.Sdk
open Foundations Json

/-- The numbers `json.Marshal` writes here. -/
def SmallNumber (n : ℤ) : Prop := -2 ^ 63 ≤ n ∧ n < 2 ^ 64

/-- Every string a caller puts into a process satisfies `p`. -/
structure Process.AllStrings (p : Bytes → Prop) (process : Process) : Prop where
  name : p process.name
  command : ∀ argument ∈ process.command, p argument
  env : ∀ entry ∈ process.env.toList, p entry.1 ∧ p entry.2
  workDir : p process.workDir
  user : ∀ user, process.user = some user → p user.name
  overlayDevice : p process.overlayDevice
  mounts : ∀ mount ∈ process.mounts, p mount.source ∧ p mount.target
  diskMounts : ∀ target ∈ process.diskMounts, p target
  probe : ∀ probe, process.probe = some probe → p probe.path

/-- A declaration in UTF-8. -/
def Spec.Utf8 (spec : Spec) : Prop :=
  ∀ process ∈ spec.processes, process.AllStrings fun s => Foundations.Utf8.valid s = true

theorem smallNumber_int (n : Int64) : SmallNumber n.toInt := by
  have hlow := Int64.le_toInt n
  have hhigh := Int64.toInt_lt n
  constructor <;> omega

theorem smallNumber_uint32 (n : UInt32) : SmallNumber n.toNat := by
  have hlt := n.toNat_lt
  constructor <;> omega

/-! ### The tree is small -/

section Within
variable (p : Bytes → Prop) (hascii : ∀ s : Bytes, (∀ b ∈ s, b < 0x80) → p s) (depth : ℕ)

theorem withinMembers_append (first second : Members) :
    WithinMembers p SmallNumber depth (first ++ second) ↔
      WithinMembers p SmallNumber depth first ∧ WithinMembers p SmallNumber depth second := by
  simp only [withinMembers_iff, List.forall_mem_append]

theorem within_string (s : Bytes) (h : p s) : Within p SmallNumber depth (.string s) := by
  rw [Within]
  exact h

theorem within_int (n : Int64) : Within p SmallNumber depth (int n) := by
  rw [int, Within]
  exact smallNumber_int n

theorem within_bool (b : Bool) : Within p SmallNumber depth (.bool b) := by
  rw [Within]
  trivial

theorem within_array (items : List (Json Bytes))
    (h : ∀ item ∈ items, Within p SmallNumber depth item) :
    Within p SmallNumber (depth + 1) (.array items) := by
  rw [Within, withinItems_iff]
  exact h

theorem within_object (members : Members) (h : WithinMembers p SmallNumber depth members) :
    Within p SmallNumber (depth + 1) (.object members) := by
  rw [Within]
  exact h

theorem within_strings (items : List Bytes) (h : ∀ item ∈ items, p item) :
    Within p SmallNumber (depth + 1) (strings items) := by
  unfold strings
  split
  · rw [Within]
    trivial
  · refine within_array p depth _ fun item hm => ?_
    obtain ⟨s, hs, rfl⟩ := List.mem_map.mp hm
    exact within_string p depth s (h s hs)

include hascii

theorem within_member (key : String) (value : Json Bytes) (hkey : (lit key).all (· < 0x80) = true)
    (hvalue : Within p SmallNumber depth value) :
    WithinMembers p SmallNumber depth (member key value) := by
  rw [withinMembers_iff]
  intro m hm
  obtain rfl := List.mem_singleton.mp hm
  exact ⟨hascii _ (ascii_of_all hkey), hvalue⟩

theorem within_omitEmpty (key : String) (empty : Prop) [Decidable empty] (value : Json Bytes)
    (hkey : (lit key).all (· < 0x80) = true) (hvalue : ¬empty → Within p SmallNumber depth value) :
    WithinMembers p SmallNumber depth (omitEmpty key empty value) := by
  unfold omitEmpty
  split
  · rw [withinMembers_iff]
    simp
  · rename_i hgiven
    exact within_member p hascii depth key value hkey (hvalue hgiven)

theorem within_omitNil {α : Type} (key : String) (pointer : Option α) (json : α → Json Bytes)
    (hkey : (lit key).all (· < 0x80) = true) (hvalue : ∀ a, pointer = some a → Within p SmallNumber depth (json a)) :
    WithinMembers p SmallNumber depth (omitNil key pointer json) := by
  cases pointer with
  | none =>
    rw [omitNil, withinMembers_iff]
    simp
  | some a => exact within_member p hascii depth key (json a) hkey (hvalue a rfl)

theorem within_probe (probe : RuntimeProbe) (hpath : p probe.path) :
    Within p SmallNumber (depth + 1) probe.json := by
  refine within_object p depth _ ?_
  simp only [withinMembers_append]
  refine ⟨⟨⟨⟨⟨⟨?_, ?_⟩, ?_⟩, ?_⟩, ?_⟩, ?_⟩, ?_⟩
  · exact within_member p hascii depth _ _ rfl (within_string p depth _ hpath)
  all_goals exact within_member p hascii depth _ _ rfl (within_int p depth _)

theorem within_user (user : ProcessUser) (hname : p user.name) :
    Within p SmallNumber (depth + 1) (toRuntimeUser user).json := by
  refine within_object p depth _ ?_
  simp only [withinMembers_append]
  unfold toRuntimeUser
  split
  · refine ⟨⟨?_, ?_⟩, ?_⟩
    · refine within_omitNil p hascii depth _ _ _ rfl fun name hn => ?_
      obtain rfl := Option.some.inj hn
      exact within_string p depth _ hname
    · exact within_omitNil p hascii depth _ _ _ rfl fun _ hn => by cases hn
    · exact within_omitNil p hascii depth _ _ _ rfl fun _ hn => by cases hn
  · refine ⟨⟨?_, ?_⟩, ?_⟩
    · exact within_omitNil p hascii depth _ _ _ rfl fun _ hn => by cases hn
    all_goals
      refine within_omitNil p hascii depth _ _ _ rfl fun n _ => ?_
      rw [Within]
      exact smallNumber_uint32 n

theorem within_bind (mount : BindMount) (h : p mount.source ∧ p mount.target) :
    Within p SmallNumber (depth + 1)
      (RuntimeBind.json ⟨mount.source, mount.target, mount.readOnly⟩) := by
  refine within_object p depth _ ?_
  simp only [withinMembers_append]
  refine ⟨⟨?_, ?_⟩, ?_⟩
  · exact within_member p hascii depth _ _ rfl (within_string p depth _ h.1)
  · exact within_member p hascii depth _ _ rfl (within_string p depth _ h.2)
  · exact within_omitEmpty p hascii depth _ _ _ rfl fun _ => within_bool p depth _

theorem within_kind (kind : Bytes) : p (discardKind (resolveProcessKind kind)) := by
  refine hascii _ ?_
  have hservice : ∀ b ∈ service, b < 0x80 := ascii_of_all rfl
  have hjob : ∀ b ∈ runToCompletion, b < 0x80 := ascii_of_all rfl
  cases hresolved : resolveProcessKind kind with
  | error _ => simp [discardKind]
  | ok resolved =>
    rcases resolveProcessKind_ok kind resolved hresolved with ⟨-, rfl⟩ | ⟨-, -, rfl⟩
    · exact hjob
    · exact hservice

theorem within_toRuntimeProbe (probe : ReadinessProbe) (h : p probe.path) :
    Within p SmallNumber (depth + 1) (toRuntimeProbe probe).json := by
  refine within_probe p hascii depth _ ?_
  show p (discardProbe (resolveProbe probe)).path
  cases hresolved : resolveProbe probe with
  | error _ => exact hascii _ (by simp [discardProbe])
  | ok resolved =>
    obtain ⟨-, rfl⟩ := (resolveProbe_eq_ok probe resolved).mp hresolved
    exact h

theorem within_common (process : Process) (h : process.AllStrings p) :
    WithinMembers p SmallNumber (depth + 1) (toRuntimeProcess process).members := by
  simp only [RuntimeProcess.members, withinMembers_append]
  refine ⟨⟨⟨⟨⟨⟨?_, ?_⟩, ?_⟩, ?_⟩, ?_⟩, ?_⟩, ?_⟩
  · exact within_member p hascii _ _ _ rfl (within_string p _ _ h.name)
  · exact within_member p hascii _ _ _ rfl
      (within_string p _ _ (within_kind p hascii process.kind))
  · exact within_member p hascii _ _ _ rfl (within_strings p depth _ h.command)
  · refine within_omitEmpty p hascii _ _ _ _ rfl fun _ => ?_
    refine within_object p depth _ ?_
    rw [withinMembers_iff]
    intro m hm
    obtain ⟨entry, hentry, rfl⟩ := List.mem_map.mp hm
    exact ⟨(h.env entry hentry).1, within_string p depth _ (h.env entry hentry).2⟩
  · exact within_omitEmpty p hascii _ _ _ _ rfl fun _ =>
      within_string p _ _ h.workDir
  · refine within_omitNil p hascii _ _ _ _ rfl fun probe hprobe => ?_
    obtain ⟨declared, hdeclared, rfl⟩ := Option.map_eq_some_iff.mp hprobe
    exact within_toRuntimeProbe p hascii depth declared (h.probe declared hdeclared)
  · exact within_omitEmpty p hascii _ _ _ _ rfl fun _ => within_int p _ _

theorem within_userOption (process : Process) (h : process.AllStrings p) :
    WithinMembers p SmallNumber (depth + 1)
      (omitNil "user" (process.user.map toRuntimeUser) RuntimeUser.json) := by
  refine within_omitNil p hascii _ _ _ _ rfl fun user huser => ?_
  obtain ⟨declared, hdeclared, rfl⟩ := Option.map_eq_some_iff.mp huser
  exact within_user p hascii depth declared (h.user declared hdeclared)

theorem within_sidecar (process : Process) (mountPath : Bytes) (h : process.AllStrings p)
    (hmountPath : p mountPath) :
    Within p SmallNumber (depth + 3) (toRuntimeSidecar process mountPath).json := by
  refine within_object p (depth + 2) _ ?_
  simp only [withinMembers_append]
  refine ⟨⟨⟨⟨⟨⟨?_, ?_⟩, ?_⟩, ?_⟩, ?_⟩, ?_⟩, ?_⟩
  · exact within_common p hascii (depth + 1) process h
  · exact within_member p hascii _ _ _ rfl (within_string p _ _ hmountPath)
  · refine within_omitEmpty p hascii _ _ _ _ rfl fun _ => within_string p _ _ ?_
    show p (if process.overlayDevice = [] then defaultOverlayDevicePath
      else process.overlayDevice)
    split
    · exact hascii _ (ascii_of_all rfl)
    · exact h.overlayDevice
  · exact within_member p hascii _ _ _ rfl (within_bool p _ _)
  · exact within_omitEmpty p hascii _ _ _ _ rfl fun _ =>
      within_strings p (depth + 1) _ h.diskMounts
  · refine within_omitEmpty p hascii _ _ _ _ rfl fun _ =>
      within_array p (depth + 1) _ fun item hm => ?_
    obtain ⟨bind, hbind, rfl⟩ := List.mem_map.mp hm
    obtain ⟨mount, hmount, rfl⟩ := List.mem_map.mp hbind
    exact within_bind p hascii depth mount (h.mounts mount hmount)
  · exact within_userOption p hascii (depth + 1) process h

theorem within_main (process : Process) (h : process.AllStrings p) :
    Within p SmallNumber (depth + 2) (toRuntimeMain process).json := by
  refine within_object p (depth + 1) _ ?_
  rw [withinMembers_append]
  exact ⟨within_common p hascii depth process h, within_userOption p hascii depth process h⟩

theorem within_spec (spec : Spec) (images : ResolvedImageSet)
    (h : ∀ process ∈ spec.processes, process.AllStrings p)
    (hmountPath : ∀ process ∈ spec.sidecars, p (images.mountPath process.name)) :
    Within p SmallNumber 5 (toRuntimeSpec spec images).json := by
  refine within_object p 4 _ ?_
  simp only [withinMembers_append]
  refine ⟨⟨?_, ?_⟩, ?_⟩
  · exact within_member p hascii _ _ _ rfl (within_int p _ _)
  · refine within_member p hascii _ _ _ rfl (within_array p 3 _ fun item hm => ?_)
    obtain ⟨rendered, hrendered, rfl⟩ := List.mem_map.mp hm
    obtain ⟨process, hprocess, rfl⟩ := List.mem_map.mp hrendered
    exact within_sidecar p hascii 0 process _ (h process (List.mem_append_left _ hprocess))
      (hmountPath process hprocess)
  · refine within_member p hascii _ _ _ rfl (within_array p 3 _ fun item hm => ?_)
    obtain ⟨rendered, hrendered, rfl⟩ := List.mem_map.mp hm
    obtain ⟨process, hprocess, rfl⟩ := List.mem_map.mp hrendered
    exact within_main p hascii 1 process (h process (List.mem_append_right _ hprocess))

end Within

/-! ### The payload is as long as the declaration -/

theorem length_le_writeItems (items : List (Json Pieces)) :
    items.length ≤ (writeItems items).length := by
  induction items with
  | nil => exact Nat.zero_le _
  | cons item rest ih =>
    rw [writeItems]
    simp only [List.length_cons, List.length_append]
    omega

theorem length_le_write_array (items : List (Json Pieces)) :
    items.length ≤ (write (.array items)).length := by
  cases items with
  | nil => exact Nat.zero_le _
  | cons item rest =>
    have hrest := length_le_writeItems rest
    rw [write]
    simp only [List.length_cons, List.length_append]
    omega

theorem processes_le_payload (replacement : Json.Replacement) (spec : Spec)
    (images : ResolvedImageSet) : spec.processes.length ≤ (encodeSpec replacement spec images).length := by
  have htext : (toRuntimeSpec spec images).json.map replacement.pieces = .object
      [(replacement.pieces (lit "version"), (int (toRuntimeSpec spec images).version).map replacement.pieces),
        (replacement.pieces (lit "sidecars"),
          .array (((toRuntimeSpec spec images).sidecars.map RuntimeSidecar.json).map
            (Json.map replacement.pieces))),
        (replacement.pieces (lit "main"),
          .array (((toRuntimeSpec spec images).main.map RuntimeMain.json).map
            (Json.map replacement.pieces)))] := by
    simp only [RuntimeSpec.json, member, List.cons_append, List.nil_append, Json.map, mapMembers,
      mapItems_eq]
  have hsidecars := length_le_write_array (((toRuntimeSpec spec images).sidecars.map
    RuntimeSidecar.json).map (Json.map replacement.pieces))
  have hmain := length_le_write_array (((toRuntimeSpec spec images).main.map
    RuntimeMain.json).map (Json.map replacement.pieces))
  have hencode := Base64.length_le_encode (marshal replacement (toRuntimeSpec spec images).json)
  unfold encodeSpec
  unfold marshal at hencode ⊢
  rw [htext] at hencode ⊢
  simp only [write, writeMembers, List.length_cons, List.length_append, List.length_map,
    toRuntimeSpec] at hsidecars hmain hencode ⊢
  unfold Spec.processes
  rw [List.length_append]
  omega

end Sandcamp.Sdk
