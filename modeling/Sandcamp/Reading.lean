import Sandcamp.Campd.Decode
import Sandcamp.Sdk.Accepted
import Sandcamp.Sdk.Render
import Sandcamp.Sdk.Resolved
import Sandcamp.Foundations.SortedMap

/-!
# What campd reads from a rendered declaration

`Intended` states what a declaration is to become in campd, field by field. The JSON tree
the renderer builds decodes to such a declaration, for byte strings of any kind.
-/

namespace Sandcamp.Reading
open Foundations Sandcamp.Sdk Sandcamp.Campd

/-! ### The intended declaration -/

/-- The declared value, or this one where none is declared. -/
def declaredOr (value : ℤ) (declared : Int64) : ℤ := if declared = 0 then value else declared.toInt

/-- The probe in whole milliseconds: 8 s to become ready, attempts every 500 ms of 1 s each, three
failures and one success, where nothing else is declared. -/
structure IntendedProbe (probe : Sdk.ReadinessProbe) (decoded : Campd.Probe) : Prop where
  path : decoded.path = probe.path
  port : (decoded.port.toNat : ℤ) = probe.port.toInt
  startup : 1000000 * (decoded.startupTimeoutMs.toNat : ℤ) =
    declaredOr (8000 * 1000000) probe.startupTimeout
  period : 1000000 * (decoded.periodMs.toNat : ℤ) = declaredOr (500 * 1000000) probe.period
  timeout : 1000000 * (decoded.timeoutMs.toNat : ℤ) = declaredOr (1000 * 1000000) probe.timeout
  failureThreshold : (decoded.failureThreshold.toNat : ℤ) = declaredOr 3 probe.failureThreshold
  successThreshold : (decoded.successThreshold.toNat : ℤ) = declaredOr 1 probe.successThreshold

/-- A name, or numbers when there is no name. -/
def userForm (user : Sdk.ProcessUser) : Campd.ProcessUser :=
  if user.name = [] then .numeric ⟨user.uid, user.gid⟩ else .named ⟨user.name⟩

def bindForm (mount : BindMount) : Campd.Bind := ⟨mount.source, mount.target, mount.readOnly⟩

structure IntendedCommon (process : Sdk.Process) (decoded : CommonProcess) : Prop where
  name : decoded.name = process.name
  kind : decoded.kind = if process.kind = runToCompletion then .runToCompletion else .service
  command : decoded.command = process.command
  env : decoded.env = process.env
  workdir : decoded.workdir = process.workDir
  probe : Option.Rel IntendedProbe process.probe decoded.readinessProbe
  completion : if process.kind = runToCompletion then
      ∃ ms : UInt64, decoded.completionTimeoutMs = some ms ∧
        1000000 * (ms.toNat : ℤ) = process.timeout.toInt
    else decoded.completionTimeoutMs = none

structure IntendedSidecar (process : Sdk.Process) (decoded : SidecarProcess) : Prop where
  common : IntendedCommon process decoded.toCommonProcess
  rootfs : decoded.rootfs = lit "/mnt/sandcamp-sidecars/" ++ process.name
  overlayDevice : decoded.overlayDevice =
    some (if process.overlayDevice = [] then lit "/dev/vdb" else process.overlayDevice)
  standardMounts : decoded.standardMounts = true
  diskMounts : decoded.diskMounts = process.diskMounts
  binds : decoded.binds = process.mounts.map bindForm
  user : decoded.user = process.user.map userForm

structure IntendedMain (process : Sdk.Process) (decoded : MainProcess) : Prop where
  common : IntendedCommon process decoded.toCommonProcess
  user : decoded.user = process.user.map userForm

structure Intended (spec : Sdk.Spec) (decoded : Campd.Spec) : Prop where
  version : decoded.version = 3
  sidecars : List.Forall₂ IntendedSidecar spec.sidecars decoded.sidecars
  main : List.Forall₂ IntendedMain spec.main decoded.main

/-! ### Members by name -/

section Members
variable (key key' : String) (value : Json Bytes) (empty : Prop) [Decidable empty]
variable {α : Type} (pointer : Option α) (json : α → Json Bytes)

theorem lookup_append (first second : Members) (field : Bytes) :
    (first ++ second).lookup field = (first.lookup field).or (second.lookup field) :=
  List.lookup_append

theorem lookup_member :
    (member key' value).lookup (lit key) = if key = key' then some value else none := by
  by_cases h : key = key'
  · subst h
    simp [member]
  · have hne : lit key ≠ lit key' := fun he => h ((lit_inj key key').mp he)
    have hfalse : (lit key == lit key') = false := beq_false_of_ne hne
    rw [if_neg h, member, List.lookup_cons, hfalse]
    rfl

theorem lookup_omitEmpty :
    (omitEmpty key' empty value).lookup (lit key) =
      if key = key' ∧ ¬empty then some value else none := by
  unfold omitEmpty
  by_cases h : empty
  · simp [h]
  · simp [h, lookup_member]

theorem lookup_omitNil :
    (omitNil key' pointer json).lookup (lit key) =
      if key = key' then pointer.map json else none := by
  cases pointer with
  | none => simp [omitNil]
  | some a => simp [omitNil, lookup_member]

/-- The members hold only these keys, in this order. -/
def KeysIn (members : Members) (keys : List Bytes) : Prop := (members.map Prod.fst).Sublist keys

theorem keysIn_member : KeysIn (member key value) [lit key] := List.Sublist.refl _

theorem keysIn_omitEmpty : KeysIn (omitEmpty key empty value) [lit key] := by
  unfold omitEmpty
  split
  · exact List.nil_sublist _
  · exact keysIn_member key value

theorem keysIn_omitNil : KeysIn (omitNil key pointer json) [lit key] := by
  cases pointer with
  | none => exact List.nil_sublist _
  | some a => exact keysIn_member key (json a)

theorem keysIn_append {first second : Members} {keys keys' : List Bytes}
    (h : KeysIn first keys) (h' : KeysIn second keys') :
    KeysIn (first ++ second) (keys ++ keys') := by
  unfold KeysIn
  rw [List.map_append]
  exact List.Sublist.append h h'

end Members

theorem lookup_absent (members : Members) (keys : List Bytes) (field : Bytes)
    (h : KeysIn members keys) (hno : field ∉ keys) : members.lookup field = none := by
  rw [List.lookup_eq_none_iff]
  intro m hm
  have hne : field ≠ m.1 := fun he => hno (he ▸ h.subset (List.mem_map_of_mem hm))
  simpa using hne

theorem structMembers_object (fields keys : List Bytes) (members : Members)
    (h : KeysIn members keys) (hkeys : ∀ key ∈ keys, key ∈ fields) (hnodup : keys.Nodup) :
    structMembers fields (.object members) = some members := by
  have hall : ∀ m ∈ members, m.1 ∈ fields := fun m hm =>
    hkeys m.1 (h.subset (List.mem_map_of_mem hm))
  exact if_pos ⟨hall, h.nodup hnodup⟩

theorem structMembers_unknown (fields : List Bytes) (members : Members) (field : Bytes)
    (value : Json Bytes) (hm : (field, value) ∈ members) (hno : field ∉ fields) :
    structMembers fields (.object members) = none :=
  if_neg fun h => hno (h.1 _ hm)

/-! ### Numbers -/

theorem decodeUnsigned_number (bound n : ℕ) (h : n < bound) :
    decodeUnsigned bound (.number n) = some n := by
  rw [decodeUnsigned, if_pos ⟨by omega, by omega⟩]
  rfl

theorem decodeU64_int (n : Int64) (hlow : 0 ≤ n.toInt) :
    ∃ u : UInt64, decodeU64 (int n) = some u ∧ (u.toNat : ℤ) = n.toInt := by
  obtain ⟨k, hvalue⟩ := Int.eq_ofNat_of_zero_le hlow
  have hbound := Int64.toInt_lt n
  have hk : k < 2 ^ 64 := by omega
  refine ⟨UInt64.ofNat k, ?_, ?_⟩
  · rw [int, hvalue, decodeU64, decodeUnsigned_number _ k hk]
    rfl
  · rw [UInt64.toNat_ofNat_of_lt' hk, hvalue]

theorem decodeU32_int (n : Int64) (hlow : 0 ≤ n.toInt) (hhigh : n.toInt < 2 ^ 32) :
    ∃ u : UInt32, decodeU32 (int n) = some u ∧ (u.toNat : ℤ) = n.toInt := by
  obtain ⟨k, hvalue⟩ := Int.eq_ofNat_of_zero_le hlow
  have hk : k < 2 ^ 32 := by omega
  refine ⟨UInt32.ofNat k, ?_, ?_⟩
  · rw [int, hvalue, decodeU32, decodeUnsigned_number _ k hk]
    rfl
  · rw [UInt32.toNat_ofNat_of_lt' hk, hvalue]

theorem decodeU16_int (n : Int64) (hlow : 0 ≤ n.toInt) (hhigh : n.toInt < 2 ^ 16) :
    ∃ u : UInt16, decodeU16 (int n) = some u ∧ (u.toNat : ℤ) = n.toInt := by
  obtain ⟨k, hvalue⟩ := Int.eq_ofNat_of_zero_le hlow
  have hk : k < 2 ^ 16 := by omega
  refine ⟨UInt16.ofNat k, ?_, ?_⟩
  · rw [int, hvalue, decodeU16, decodeUnsigned_number _ k hk]
    rfl
  · rw [UInt16.toNat_ofNat_of_lt' hk, hvalue]

theorem decodeU32_toNat (n : UInt32) : decodeU32 (.number n.toNat) = some n := by
  rw [decodeU32, decodeUnsigned_number _ _ n.toNat_lt]
  exact congrArg some (UInt32.ofNat_toNat)

/-- A duration of whole milliseconds is rendered without a remainder. -/
theorem milliseconds_exact {low high : ℕ} {duration : Int64}
    (h : WholeMilliseconds low high duration) :
    0 ≤ (milliseconds duration).toInt ∧ 1000000 * (milliseconds duration).toInt = duration.toInt ∧
      low ≤ (milliseconds duration).toInt := by
  obtain ⟨ms, hlow, -, hvalue⟩ := h
  have hunit : Sdk.millisecond.toInt = 1000000 := by decide
  have hne : Sdk.millisecond ≠ -1 := by decide
  have hdiv : (milliseconds duration).toInt = ms := by
    unfold milliseconds
    rw [Int64.toInt_div_of_ne_right _ _ hne, hunit, hvalue, Int.mul_tdiv_cancel_left _ (by decide)]
  rw [hdiv]
  omega

theorem decodeU64_milliseconds {low high : ℕ} {duration : Int64}
    (h : WholeMilliseconds low high duration) :
    ∃ u : UInt64, decodeU64 (int (milliseconds duration)) = some u ∧
      1000000 * (u.toNat : ℤ) = duration.toInt := by
  obtain ⟨hpos, hexact, -⟩ := milliseconds_exact h
  obtain ⟨u, hu, hvalue⟩ := decodeU64_int _ hpos
  refine ⟨u, hu, ?_⟩
  rw [hvalue, hexact]

/-! ### Lists -/

theorem mapM_map_some {α β γ : Type} (f : β → Option γ) (g : α → β) (R : α → γ → Prop)
    (xs : List α) (h : ∀ x ∈ xs, ∃ y, f (g x) = some y ∧ R x y) :
    ∃ ys, (xs.map g).mapM f = some ys ∧ List.Forall₂ R xs ys := by
  induction xs with
  | nil => exact ⟨[], rfl, List.Forall₂.nil⟩
  | cons x xs ih =>
    obtain ⟨y, hy, hr⟩ := h x List.mem_cons_self
    obtain ⟨ys, hys, hrs⟩ := ih fun z hz => h z (List.mem_cons_of_mem _ hz)
    refine ⟨y :: ys, ?_, List.Forall₂.cons hr hrs⟩
    rw [List.map_cons, List.mapM_cons, hy, hys]
    rfl

theorem mapM_map_eq {α β γ : Type} (f : β → Option γ) (g : α → β) (k : α → γ) (xs : List α)
    (h : ∀ x, f (g x) = some (k x)) : (xs.map g).mapM f = some (xs.map k) := by
  induction xs with
  | nil => rfl
  | cons x xs ih =>
    rw [List.map_cons, List.mapM_cons, h x, ih]
    rfl

theorem decodeStrings (items : List Bytes) (h : items ≠ []) :
    decodeList decodeString (strings items) = some items := by
  have hitems := mapM_map_eq decodeString .string id items fun _ => rfl
  rw [List.map_id] at hitems
  rw [strings, if_neg h]
  exact hitems

theorem decodeEnv_entries (env : Environment) :
    decodeEnv (.object (env.toList.map fun (key, value) => (key, Json.string value))) =
      some env := by
  have hfold : ∀ (entries : List (Bytes × Bytes)) (start : Environment),
      (entries.map fun (key, value) => (key, Json.string value)).foldlM insertEntry start =
        some (entries.foldl (fun m entry => m.insert entry.1 entry.2) start) := by
    intro entries
    induction entries with
    | nil => intro start; rfl
    | cons entry entries ih =>
      intro start
      rw [List.map_cons, List.foldlM_cons, List.foldl_cons, ← ih]
      rfl
  show (env.toList.map fun (key, value) => (key, Json.string value)).foldlM insertEntry ∅ = _
  rw [hfold env.toList ∅, SortedMap.foldl_insert_toList]

/-! ### Structs -/

/-- A field that is left at zero is resolved to its default. -/
theorem toInt_default (declared default : Int64) :
    (if declared = 0 then default else declared).toInt = declaredOr default.toInt declared := by
  unfold declaredOr
  split <;> rfl

/-- What `resolveProbe` makes of the fields that have defaults. -/
theorem withDefaults_declared (probe : Sdk.ReadinessProbe) :
    probe.withDefaults.startupTimeout.toInt =
        declaredOr (8000 * 1000000) probe.startupTimeout ∧
      probe.withDefaults.period.toInt = declaredOr (500 * 1000000) probe.period ∧
      probe.withDefaults.timeout.toInt = declaredOr (1000 * 1000000) probe.timeout ∧
      probe.withDefaults.failureThreshold.toInt = declaredOr 3 probe.failureThreshold ∧
      probe.withDefaults.successThreshold.toInt = declaredOr 1 probe.successThreshold :=
  ⟨toInt_default probe.startupTimeout defaultStartupTimeout,
    toInt_default probe.period defaultProbePeriod, toInt_default probe.timeout defaultProbeTimeout,
    toInt_default probe.failureThreshold defaultFailureThreshold,
    toInt_default probe.successThreshold defaultSuccessThreshold⟩

theorem decodeProbe_json (probe : Sdk.ReadinessProbe) (h : AcceptedProbe probe.withDefaults) :
    ∃ decoded, decodeProbe (toRuntimeProbe probe).json = some decoded ∧
      IntendedProbe probe decoded := by
  have hresolved : resolveProbe probe = .ok probe.withDefaults :=
    (resolveProbe_eq_ok probe _).mpr ⟨h, rfl⟩
  have hport := h.port
  have hfailure := h.failureThreshold
  have hsuccess := h.successThreshold
  obtain ⟨port, hport, hportValue⟩ := decodeU16_int probe.withDefaults.port
    (by omega) (by omega)
  obtain ⟨startup, hstartup, hstartupValue⟩ := decodeU64_milliseconds h.startup
  obtain ⟨period, hperiod, hperiodValue⟩ := decodeU64_milliseconds h.period
  obtain ⟨timeout, htimeout, htimeoutValue⟩ := decodeU64_milliseconds h.timeout
  obtain ⟨failure, hfailure, hfailureValue⟩ := decodeU32_int
    probe.withDefaults.failureThreshold (by omega) (by omega)
  obtain ⟨success, hsuccess, hsuccessValue⟩ := decodeU32_int
    probe.withDefaults.successThreshold (by omega) (by omega)
  obtain ⟨hstartup₀, hperiod₀, htimeout₀, hfailure₀, hsuccess₀⟩ := withDefaults_declared probe
  refine ⟨⟨probe.path, port, startup, period, timeout, failure, success⟩, ?_,
    { path := rfl
      port := hportValue
      startup := hstartupValue.trans hstartup₀
      period := hperiodValue.trans hperiod₀
      timeout := htimeoutValue.trans htimeout₀
      failureThreshold := hfailureValue.trans hfailure₀
      successThreshold := hsuccessValue.trans hsuccess₀ }⟩
  have hkeys := keysIn_append (keysIn_append (keysIn_append (keysIn_append (keysIn_append
    (keysIn_append (keysIn_member "path" (.string probe.withDefaults.path))
      (keysIn_member "port" (int probe.withDefaults.port)))
    (keysIn_member "startup_timeout_ms" (int (milliseconds probe.withDefaults.startupTimeout))))
    (keysIn_member "period_ms" (int (milliseconds probe.withDefaults.period))))
    (keysIn_member "timeout_ms" (int (milliseconds probe.withDefaults.timeout))))
    (keysIn_member "failure_threshold" (int probe.withDefaults.failureThreshold)))
    (keysIn_member "success_threshold" (int probe.withDefaults.successThreshold))
  have hmembers := structMembers_object probeFields _ _ hkeys (by decide) (by decide)
  simp only [toRuntimeProbe, hresolved, discardProbe, RuntimeProbe.json]
  rw [decodeProbe, hmembers]
  simp only [Option.bind_eq_bind, Option.bind_some, required, lookup_append, lookup_member]
  simp only [String.reduceEq, if_true, if_false, Option.some_or, Option.none_or,
    Option.bind_some, decodeString, hport, hstartup, hperiod, htimeout, hfailure, hsuccess]
  rfl

theorem decodeOption_some {α : Type} (decode : Json Bytes → Option α) (value : Json Bytes) (a : α)
    (hvalue : value ≠ .null) (h : decode value = some a) :
    decodeOption decode value = some (some a) := by
  have hstep : decodeOption decode value = (decode value).map some := by
    cases value <;> first | rfl | exact absurd rfl hvalue
  rw [hstep, h]
  rfl

theorem required_given {α : Type} (members : Members) (field : Bytes)
    (decode : Json Bytes → Option α) (value : Json Bytes)
    (h : members.lookup field = some value) : required members field decode = decode value := by
  rw [required, h, Option.bind_some]

theorem defaulted_given {α : Type} (members : Members) (field : Bytes)
    (decode : Json Bytes → Option α) (default : α) (value : Json Bytes)
    (h : members.lookup field = some value) :
    defaulted members field decode default = decode value := by
  unfold defaulted
  rw [h]

/-- A defaulted field that is left out exactly when it has its default. -/
theorem defaulted_omitted {α : Type} (members : Members) (field : Bytes)
    (decode : Json Bytes → Option α) (default a : α) (empty : Prop) [Decidable empty]
    (value : Json Bytes) (hlookup : members.lookup field = if ¬empty then some value else none)
    (hempty : empty → default = a) (hgiven : ¬empty → decode value = some a) :
    defaulted members field decode default = some a := by
  unfold defaulted
  rw [hlookup]
  by_cases h : empty
  · simp [h, hempty h]
  · simp [h, hgiven h]

/-- Numbers are no named user: `uid` is an unknown member. -/
theorem decodeNamedUser_numbers (uid gid : Json Bytes) :
    decodeNamedUser (.object (member "uid" uid ++ member "gid" gid)) = none := by
  have hfirst : (lit "uid", uid) ∈ member "uid" uid ++ member "gid" gid :=
    List.mem_append_left _ (List.mem_singleton_self _)
  have hunknown := structMembers_unknown [lit "name"] _ (lit "uid") uid hfirst (by decide)
  rw [decodeNamedUser, hunknown]
  rfl

theorem decodeNumericUser_numbers (uid gid : UInt32) :
    decodeNumericUser (.object (member "uid" (.number uid.toNat) ++
      member "gid" (.number gid.toNat))) = some ⟨uid, gid⟩ := by
  have hkeys := keysIn_append (keysIn_member "uid" (.number uid.toNat))
    (keysIn_member "gid" (.number gid.toNat))
  have hmembers := structMembers_object [lit "uid", lit "gid"] _ _ hkeys (by decide) (by decide)
  have huid := required_given (member "uid" (.number uid.toNat) ++ member "gid" (.number gid.toNat))
    (lit "uid") decodeU32 (.number uid.toNat)
    (by simp only [lookup_append, lookup_member, if_true, Option.some_or])
  have hgid := required_given (member "uid" (.number uid.toNat) ++ member "gid" (.number gid.toNat))
    (lit "gid") decodeU32 (.number gid.toNat)
    (by simp only [lookup_append, lookup_member, String.reduceEq, if_true, if_false,
      Option.none_or])
  rw [decodeU32_toNat] at huid hgid
  rw [decodeNumericUser, hmembers, Option.bind_eq_bind, Option.bind_some, huid,
    Option.bind_eq_bind, Option.bind_some, hgid, Option.bind_some]

theorem decodeNamedUser_name (name : Bytes) :
    decodeNamedUser (.object (member "name" (.string name))) = some ⟨name⟩ := by
  have hmembers := structMembers_object [lit "name"] _ _
    (keysIn_member "name" (.string name)) (by decide) (by decide)
  rw [decodeNamedUser, hmembers]
  simp only [Option.bind_eq_bind, Option.bind_some, required, lookup_member, if_true,
    decodeString]

theorem decodeUser_json (user : Sdk.ProcessUser) :
    decodeUser (toRuntimeUser user).json = some (userForm user) := by
  unfold toRuntimeUser userForm
  by_cases hname : user.name = []
  · rw [if_neg (not_not.mpr hname), if_pos hname]
    show decodeUser (.object (member "uid" (.number user.uid.toNat) ++
      member "gid" (.number user.gid.toNat))) = _
    rw [decodeUser, decodeNamedUser_numbers, decodeNumericUser_numbers]
    rfl
  · rw [if_pos hname, if_neg hname]
    show decodeUser (.object (member "name" (.string user.name))) = _
    rw [decodeUser, decodeNamedUser_name]

theorem decodeUser_option (members : Members) (user : Option Sdk.ProcessUser)
    (hlookup : members.lookup (lit "user") = (user.map toRuntimeUser).map RuntimeUser.json) :
    defaulted members (lit "user") (decodeOption decodeUser) none =
      some (user.map userForm) := by
  unfold defaulted
  rw [hlookup]
  cases user with
  | none => rfl
  | some user =>
    exact decodeOption_some _ _ _ (by simp [RuntimeUser.json]) (decodeUser_json user)

theorem decodeBind_json (mount : BindMount) :
    decodeBind (RuntimeBind.json ⟨mount.source, mount.target, mount.readOnly⟩) =
      some (bindForm mount) := by
  have hkeys := keysIn_append (keysIn_append (keysIn_member "source" (.string mount.source))
    (keysIn_member "target" (.string mount.target)))
    (keysIn_omitEmpty "readonly" (.bool mount.readOnly) (mount.readOnly = false))
  have hmembers := structMembers_object [lit "source", lit "target", lit "readonly"] _ _ hkeys
    (by decide) (by decide)
  have hreadonly := defaulted_omitted
    (member "source" (.string mount.source) ++ member "target" (.string mount.target) ++
      omitEmpty "readonly" (mount.readOnly = false) (.bool mount.readOnly)) (lit "readonly")
    decodeBool false mount.readOnly (mount.readOnly = false) (.bool mount.readOnly)
    (by simp only [lookup_append, lookup_member, lookup_omitEmpty, String.reduceEq, if_false,
      Option.none_or, true_and])
    (fun h => h.symm) (fun _ => rfl)
  rw [RuntimeBind.json, decodeBind, hmembers]
  simp only [Option.bind_eq_bind, Option.bind_some, hreadonly, required]
  simp only [lookup_append, lookup_member, String.reduceEq, if_true, if_false, Option.some_or,
    Option.none_or, Option.bind_some, decodeString]
  rfl

/-! ### Processes -/

/-- The rules the reading of a process depends on. -/
structure Readable (process : Sdk.Process) : Prop where
  command : process.command ≠ []
  kind : AcceptedKind process

theorem readable_of_accepted {process : Sdk.Process} (h : Accepted process) :
    Readable process := by
  refine ⟨?_, h.kind⟩
  intro hnil
  have hcommand := h.command
  rw [hnil] at hcommand
  cases hcommand

/-- The kind a rendered process carries. -/
def renderedKind (process : Sdk.Process) : Bytes :=
  if process.kind = runToCompletion then runToCompletion else service

theorem resolveProcessKind_readable (process : Sdk.Process) (h : AcceptedKind process) :
    resolveProcessKind process.kind = .ok (renderedKind process) := by
  unfold AcceptedKind at h
  unfold renderedKind
  by_cases hjob : process.kind = runToCompletion
  · rw [if_pos hjob, hjob]
    decide
  · rw [if_neg hjob] at h ⊢
    rcases h.1 with hempty | hservice
    · rw [hempty]
      rfl
    · rw [hservice]
      decide

def commonFields : List Bytes :=
  [lit "name", lit "kind", lit "command", lit "env", lit "workdir", lit "readiness_probe",
    lit "completion_timeout_ms"]

theorem decodeCommon_congr (members members' : Members)
    (h : ∀ field ∈ commonFields, members.lookup field = members'.lookup field) :
    decodeCommon members = decodeCommon members' := by
  simp only [commonFields, List.forall_mem_cons, List.not_mem_nil, false_implies, implies_true,
    and_true] at h
  obtain ⟨hname, hkind, hcommand, henv, hworkdir, hprobe, htimeout⟩ := h
  simp only [decodeCommon, required, defaulted, hname, hkind, hcommand, henv, hworkdir, hprobe,
    htimeout]

theorem keysIn_common (process : RuntimeProcess) : KeysIn process.members commonFields := by
  have hkeys := keysIn_append (keysIn_append (keysIn_append (keysIn_append (keysIn_append
    (keysIn_append (keysIn_member "name" (.string process.name))
      (keysIn_member "kind" (.string process.kind)))
    (keysIn_member "command" (strings process.command)))
    (keysIn_omitEmpty "env"
      (.object (process.env.toList.map fun (key, value) => (key, .string value)))
      (process.env.toList = [])))
    (keysIn_omitEmpty "workdir" (.string process.workDir) (process.workDir = [])))
    (keysIn_omitNil "readiness_probe" process.readinessProbe RuntimeProbe.json))
    (keysIn_omitEmpty "completion_timeout_ms" (int process.completionTimeoutMS)
      (process.completionTimeoutMS = 0))
  exact hkeys

/-- Every field of the common members, as `decodeCommon` finds it. -/
theorem lookup_common (process : RuntimeProcess) :
    process.members.lookup (lit "name") = some (.string process.name) ∧
    process.members.lookup (lit "kind") = some (.string process.kind) ∧
    process.members.lookup (lit "command") = some (strings process.command) ∧
    process.members.lookup (lit "env") = (if ¬process.env.toList = [] then
      some (.object (process.env.toList.map fun (key, value) => (key, .string value))) else none) ∧
    process.members.lookup (lit "workdir") =
      (if ¬process.workDir = [] then some (.string process.workDir) else none) ∧
    process.members.lookup (lit "readiness_probe") =
      process.readinessProbe.map RuntimeProbe.json ∧
    process.members.lookup (lit "completion_timeout_ms") =
      (if ¬process.completionTimeoutMS = 0 then some (int process.completionTimeoutMS)
        else none) := by
  simp only [RuntimeProcess.members, lookup_append, lookup_member, lookup_omitEmpty,
    lookup_omitNil, String.reduceEq, if_true, if_false, false_and, true_and, Option.none_or,
    Option.or_none, and_self]

theorem decodeKind_rendered (process : Sdk.Process) :
    decodeKind (.string (renderedKind process)) =
      some (if process.kind = runToCompletion then .runToCompletion else .service) := by
  unfold renderedKind
  split
  · decide
  · decide

theorem env_eq_empty (env : Environment) (h : env.toList = []) : (∅ : Environment) = env := by
  have hrebuilt := SortedMap.foldl_insert_toList env
  rw [h] at hrebuilt
  exact hrebuilt

theorem decodeReadinessProbe (process : Sdk.Process) (members : Members)
    (h : AcceptedKind process)
    (hlookup : members.lookup (lit "readiness_probe") =
      (process.probe.map toRuntimeProbe).map RuntimeProbe.json) :
    ∃ decoded, defaulted members (lit "readiness_probe") (decodeOption decodeProbe) none =
      some decoded ∧ Option.Rel IntendedProbe process.probe decoded := by
  unfold defaulted
  rw [hlookup]
  cases hprobe : process.probe with
  | none => exact ⟨none, rfl, Option.Rel.none⟩
  | some probe =>
    have haccepted : AcceptedProbe probe.withDefaults := by
      unfold AcceptedKind at h
      split at h
      · rw [h.1] at hprobe
        cases hprobe
      · exact h.2.2 probe hprobe
    obtain ⟨decoded, hdecoded, hintended⟩ := decodeProbe_json probe haccepted
    exact ⟨some decoded, decodeOption_some _ _ _ (by simp [RuntimeProbe.json]) hdecoded,
      Option.Rel.some hintended⟩

/-- The completion timeout is sent for jobs only, and never as zero. -/
theorem decodeCompletionTimeout (process : Sdk.Process) (members : Members)
    (h : AcceptedKind process)
    (hlookup : members.lookup (lit "completion_timeout_ms") =
      (if ¬(toRuntimeProcess process).completionTimeoutMS = 0 then
        some (int (toRuntimeProcess process).completionTimeoutMS) else none)) :
    ∃ decoded, defaulted members (lit "completion_timeout_ms") (decodeOption decodeU64) none =
      some decoded ∧
        if process.kind = runToCompletion then
          ∃ ms : UInt64, decoded = some ms ∧ 1000000 * (ms.toNat : ℤ) = process.timeout.toInt
        else decoded = none := by
  have hkind := resolveProcessKind_readable process h
  have hdifferent : service ≠ runToCompletion := by decide +kernel
  unfold AcceptedKind at h
  unfold defaulted
  rw [hlookup]
  simp only [toRuntimeProcess, hkind, discardKind, renderedKind]
  by_cases hjob : process.kind = runToCompletion
  · rw [if_pos hjob] at h
    obtain ⟨ms, hms, hvalue⟩ := decodeU64_milliseconds h.2
    obtain ⟨-, -, hlow⟩ := milliseconds_exact h.2
    have hzero : ¬milliseconds process.timeout = 0 := by
      intro he
      rw [he, Int64.toInt_zero] at hlow
      omega
    simp only [hjob, if_true, hzero, not_false_iff]
    exact ⟨some ms, decodeOption_some _ _ _ (by simp [int]) hms, ms, rfl, hvalue⟩
  · simp only [hjob, if_false, hdifferent, not_true]
    exact ⟨none, rfl, rfl⟩

theorem decodeCommon_members (process : Sdk.Process) (h : Readable process) :
    ∃ decoded, decodeCommon (toRuntimeProcess process).members = some decoded ∧
      IntendedCommon process decoded := by
  have hresolved := resolveProcessKind_readable process h.kind
  obtain ⟨hname, hkind, hcommand, henv, hworkdir, hprobe, htimeout⟩ :=
    lookup_common (toRuntimeProcess process)
  obtain ⟨probe, hprobeDecoded, hprobeIntended⟩ :=
    decodeReadinessProbe process _ h.kind hprobe
  obtain ⟨timeout, htimeoutDecoded, htimeoutIntended⟩ :=
    decodeCompletionTimeout process _ h.kind htimeout
  have henvDecoded := defaulted_omitted _ (lit "env") decodeEnv ∅ process.env
    (process.env.toList = []) _ henv (env_eq_empty process.env)
    (fun _ => decodeEnv_entries process.env)
  have hworkdirDecoded := defaulted_omitted _ (lit "workdir") decodeString [] process.workDir
    (process.workDir = []) _ hworkdir (fun he => he.symm) (fun _ => rfl)
  have hnameDecoded := required_given _ _ decodeString _ hname
  have hkindDecoded := required_given _ _ decodeKind _ hkind
  have hcommandDecoded := required_given _ _ (decodeList decodeString) _ hcommand
  have hkindValue : decodeKind (.string (toRuntimeProcess process).kind) =
      some (if process.kind = runToCompletion then .runToCompletion else .service) := by
    have hsame : (toRuntimeProcess process).kind = renderedKind process := by
      simp only [toRuntimeProcess, hresolved, discardKind]
    rw [hsame, decodeKind_rendered]
  have hcommandValue : decodeList decodeString (strings (toRuntimeProcess process).command) =
      some process.command := decodeStrings process.command h.command
  rw [hkindValue] at hkindDecoded
  rw [hcommandValue] at hcommandDecoded
  refine ⟨⟨process.name, _, process.command, process.env, process.workDir, probe, timeout⟩, ?_,
    ⟨rfl, rfl, rfl, rfl, rfl, hprobeIntended, htimeoutIntended⟩⟩
  rw [decodeCommon, hnameDecoded, hkindDecoded, hcommandDecoded, henvDecoded, hworkdirDecoded,
    hprobeDecoded, htimeoutDecoded]
  rfl

/-- The members of a sidecar behind the common ones. -/
def sidecarRest (process : RuntimeSidecar) : Members :=
  member "rootfs" (.string process.rootFS) ++
    omitEmpty "overlay_device" (process.overlayDevice = []) (.string process.overlayDevice) ++
    member "standard_mounts" (.bool process.standardMounts) ++
    omitEmpty "disk_mounts" (process.diskMounts = []) (strings process.diskMounts) ++
    omitEmpty "binds" (process.binds = []) (.array (process.binds.map RuntimeBind.json)) ++
    omitNil "user" process.user RuntimeUser.json

def restFields : List Bytes :=
  [lit "rootfs", lit "overlay_device", lit "standard_mounts", lit "disk_mounts", lit "binds",
    lit "user"]

theorem sidecar_json (process : RuntimeSidecar) :
    process.json = .object (process.toRuntimeProcess.members ++ sidecarRest process) := by
  simp only [RuntimeSidecar.json, sidecarRest, List.append_assoc]

theorem keysIn_sidecarRest (process : RuntimeSidecar) :
    KeysIn (sidecarRest process) restFields := by
  have hkeys := keysIn_append (keysIn_append (keysIn_append (keysIn_append (keysIn_append
    (keysIn_member "rootfs" (.string process.rootFS))
    (keysIn_omitEmpty "overlay_device" (.string process.overlayDevice)
      (process.overlayDevice = [])))
    (keysIn_member "standard_mounts" (.bool process.standardMounts)))
    (keysIn_omitEmpty "disk_mounts" (strings process.diskMounts) (process.diskMounts = [])))
    (keysIn_omitEmpty "binds" (.array (process.binds.map RuntimeBind.json))
      (process.binds = [])))
    (keysIn_omitNil "user" process.user RuntimeUser.json)
  exact hkeys

theorem lookup_sidecarRest (process : RuntimeSidecar) :
    (sidecarRest process).lookup (lit "rootfs") = some (.string process.rootFS) ∧
    (sidecarRest process).lookup (lit "overlay_device") =
      (if ¬process.overlayDevice = [] then some (.string process.overlayDevice) else none) ∧
    (sidecarRest process).lookup (lit "standard_mounts") = some (.bool process.standardMounts) ∧
    (sidecarRest process).lookup (lit "disk_mounts") =
      (if ¬process.diskMounts = [] then some (strings process.diskMounts) else none) ∧
    (sidecarRest process).lookup (lit "binds") = (if ¬process.binds = [] then
      some (.array (process.binds.map RuntimeBind.json)) else none) ∧
    (sidecarRest process).lookup (lit "user") = process.user.map RuntimeUser.json := by
  simp only [sidecarRest, lookup_append, lookup_member, lookup_omitEmpty, lookup_omitNil,
    String.reduceEq, if_true, if_false, false_and, true_and, Option.none_or, Option.or_none,
    and_self]

theorem decodeBinds (mounts : List BindMount) (members : Members)
    (hlookup : members.lookup (lit "binds") = (if ¬toRuntimeBinds mounts = [] then
      some (.array ((toRuntimeBinds mounts).map RuntimeBind.json)) else none)) :
    defaulted members (lit "binds") (decodeList decodeBind) [] =
      some (mounts.map bindForm) := by
  refine defaulted_omitted _ _ _ _ _ _ _ hlookup ?_ ?_
  · intro hempty
    unfold toRuntimeBinds at hempty
    rw [List.map_eq_nil_iff] at hempty
    rw [hempty]
    rfl
  · intro _
    have hmounts := mapM_map_eq decodeBind
      (fun mount : BindMount => RuntimeBind.json ⟨mount.source, mount.target, mount.readOnly⟩)
      bindForm mounts decodeBind_json
    rw [toRuntimeBinds, List.map_map]
    exact hmounts

theorem decodeSidecar_json (process : Sdk.Process) (mountPath : Bytes) (h : Readable process)
    (hrootfs : mountPath = lit "/mnt/sandcamp-sidecars/" ++ process.name) :
    ∃ decoded, decodeSidecar (toRuntimeSidecar process mountPath).json = some decoded ∧
      IntendedSidecar process decoded := by
  have hmembers := structMembers_object sidecarFields _ _
    (keysIn_append (keysIn_common (toRuntimeProcess process))
      (keysIn_sidecarRest (toRuntimeSidecar process mountPath))) (by decide) (by decide)
  obtain ⟨common, hcommon, hintended⟩ := decodeCommon_members process h
  -- the two halves of the members share no field
  have hfirst : ∀ field ∈ commonFields, ((toRuntimeProcess process).members ++
      sidecarRest (toRuntimeSidecar process mountPath)).lookup field =
      (toRuntimeProcess process).members.lookup field := by
    intro field hm
    have hdisjoint : ∀ field ∈ commonFields, field ∉ restFields := by decide +kernel
    rw [lookup_append, lookup_absent _ _ _ (keysIn_sidecarRest _) (hdisjoint field hm),
      Option.or_none]
  have hsecond : ∀ field ∈ restFields, ((toRuntimeProcess process).members ++
      sidecarRest (toRuntimeSidecar process mountPath)).lookup field =
      (sidecarRest (toRuntimeSidecar process mountPath)).lookup field := by
    intro field hm
    have hdisjoint : ∀ field ∈ restFields, field ∉ commonFields := by decide +kernel
    rw [lookup_append, lookup_absent _ _ _ (keysIn_common _) (hdisjoint field hm),
      Option.none_or]
  rw [← decodeCommon_congr _ _ hfirst] at hcommon
  obtain ⟨hroot, hdevice, hstandard, hdisk, hbinds, huser⟩ :=
    lookup_sidecarRest (toRuntimeSidecar process mountPath)
  rw [← hsecond _ (by decide)] at hroot hdevice hstandard hdisk hbinds huser
  have hrootDecoded := required_given _ _ decodeString _ hroot
  have hdeviceDecoded := defaulted_omitted _ _ (decodeOption decodeString) none
    (some (toRuntimeSidecar process mountPath).overlayDevice) _ _ hdevice
    (fun hempty => absurd hempty (by
      show ¬(if process.overlayDevice = [] then defaultOverlayDevicePath
        else process.overlayDevice) = []
      split
      · decide
      · assumption))
    (fun _ => rfl)
  have hdiskDecoded := defaulted_omitted _ _ (decodeList decodeString) []
    process.diskMounts _ _ hdisk (fun hempty => hempty.symm)
    (fun hne => decodeStrings process.diskMounts hne)
  have hbindsDecoded := decodeBinds process.mounts _ hbinds
  have huserDecoded := decodeUser_option _ process.user huser
  have hstandardDecoded := defaulted_given _ _ decodeBool false _ hstandard
  refine ⟨{ common with
    rootfs := mountPath
    overlayDevice := some (toRuntimeSidecar process mountPath).overlayDevice
    standardMounts := true
    diskMounts := process.diskMounts
    binds := process.mounts.map bindForm
    user := process.user.map userForm }, ?_, ⟨hintended, hrootfs, rfl, rfl, rfl, rfl, rfl⟩⟩
  rw [sidecar_json, decodeSidecar]
  show (structMembers sidecarFields (.object ((toRuntimeProcess process).members ++
    sidecarRest (toRuntimeSidecar process mountPath)))).bind _ = _
  rw [hmembers, Option.bind_some, hcommon, hrootDecoded, hdeviceDecoded, hstandardDecoded,
    hdiskDecoded, hbindsDecoded, huserDecoded]
  rfl

theorem decodeMain_json (process : Sdk.Process) (h : Readable process) :
    ∃ decoded, decodeMain (toRuntimeMain process).json = some decoded ∧
      IntendedMain process decoded := by
  have huserKeys := keysIn_omitNil "user" (process.user.map toRuntimeUser) RuntimeUser.json
  have hmembers := structMembers_object mainFields _ _
    (keysIn_append (keysIn_common (toRuntimeProcess process)) huserKeys) (by decide) (by decide)
  obtain ⟨common, hcommon, hintended⟩ := decodeCommon_members process h
  have hfirst : ∀ field ∈ commonFields, ((toRuntimeProcess process).members ++
      omitNil "user" (process.user.map toRuntimeUser) RuntimeUser.json).lookup field =
      (toRuntimeProcess process).members.lookup field := by
    intro field hm
    have hdisjoint : ∀ field ∈ commonFields, field ∉ [lit "user"] := by decide +kernel
    rw [lookup_append, lookup_absent _ _ _ huserKeys (hdisjoint field hm), Option.or_none]
  rw [← decodeCommon_congr _ _ hfirst] at hcommon
  have huser : ((toRuntimeProcess process).members ++
      omitNil "user" (process.user.map toRuntimeUser) RuntimeUser.json).lookup (lit "user") =
      (process.user.map toRuntimeUser).map RuntimeUser.json := by
    rw [lookup_append, lookup_absent _ _ _ (keysIn_common _) (by decide), Option.none_or,
      lookup_omitNil, if_pos rfl]
  have huserDecoded := decodeUser_option _ process.user huser
  refine ⟨{ common with user := process.user.map userForm }, ?_, ⟨hintended, rfl⟩⟩
  rw [RuntimeMain.json, decodeMain]
  show (structMembers mainFields (.object ((toRuntimeProcess process).members ++
    omitNil "user" (process.user.map toRuntimeUser) RuntimeUser.json))).bind _ = _
  rw [hmembers, Option.bind_some, hcommon, huserDecoded]
  rfl

/-- The rendered tree decodes to the intended declaration. -/
theorem decodeSpec_json (spec : Sdk.Spec) (images : ResolvedImageSet)
    (hall : ∀ process ∈ spec.processes, Readable process)
    (hrootfs : ∀ process ∈ spec.sidecars,
      images.mountPath process.name = lit "/mnt/sandcamp-sidecars/" ++ process.name) :
    ∃ decoded, decodeSpec (toRuntimeSpec spec images).json = some decoded ∧
      Intended spec decoded := by
  obtain ⟨sidecars, hsidecars, hsidecarsIntended⟩ := mapM_map_some decodeSidecar
    (fun process => (toRuntimeSidecar process (images.mountPath process.name)).json)
    IntendedSidecar spec.sidecars fun process hm => decodeSidecar_json process _
      (hall process (List.mem_append_left _ hm)) (hrootfs process hm)
  obtain ⟨main, hmain, hmainIntended⟩ := mapM_map_some decodeMain
    (fun process => (toRuntimeMain process).json) IntendedMain spec.main
    fun process hm => decodeMain_json process (hall process (List.mem_append_right _ hm))
  have hkeys := keysIn_append (keysIn_append (keysIn_member "version" (int runtimeSpecVersion))
    (keysIn_member "sidecars"
      (.array ((toRuntimeSpec spec images).sidecars.map RuntimeSidecar.json))))
    (keysIn_member "main" (.array ((toRuntimeSpec spec images).main.map RuntimeMain.json)))
  have hmembers := structMembers_object [lit "version", lit "sidecars", lit "main"] _ _ hkeys
    (by decide) (by decide)
  have hversion : decodeU8 (int runtimeSpecVersion) = some 3 := by decide
  have hsidecarsList : decodeList decodeSidecar
      (.array ((toRuntimeSpec spec images).sidecars.map RuntimeSidecar.json)) = some sidecars := by
    rw [toRuntimeSpec, List.map_map]
    exact hsidecars
  have hmainList : decodeList decodeMain
      (.array ((toRuntimeSpec spec images).main.map RuntimeMain.json)) = some main := by
    rw [toRuntimeSpec, List.map_map]
    exact hmain
  refine ⟨⟨3, sidecars, main⟩, ?_, ⟨rfl, hsidecarsIntended, hmainIntended⟩⟩
  rw [RuntimeSpec.json, decodeSpec]
  show (structMembers [lit "version", lit "sidecars", lit "main"] (.object
    (member "version" (int runtimeSpecVersion) ++ member "sidecars"
      (.array ((toRuntimeSpec spec images).sidecars.map RuntimeSidecar.json)) ++
      member "main" (.array ((toRuntimeSpec spec images).main.map RuntimeMain.json))))).bind _ = _
  rw [hmembers, Option.bind_some]
  simp only [required, lookup_append, lookup_member, String.reduceEq, if_true, if_false,
    Option.some_or, Option.none_or, Option.bind_some, hversion, hsidecarsList, hmainList]
  rfl

end Sandcamp.Reading
