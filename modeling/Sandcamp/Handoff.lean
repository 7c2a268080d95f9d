import Sandcamp.Foundations.SortedMap
import Sandcamp.Campd.Launch
import Sandcamp.Campd.WellFormed
import Sandcamp.Sandrun.Accepted
import Sandcamp.Sandrun.Settings

/-!
# What campd hands to a child

`build_command` writes the command line of a sidecar and `parse_args` reads it.
The argument vector is a list of settings followed by `--` and the declared
command, so the parser sees the settings one by one whatever the command is; the
checks after its loop are the ones campd has made, except that a private disk
mount needs an overlay device. The environment of every child is the declared
one, without the variable that carries the declaration.
-/

namespace Sandcamp.Handoff
open Foundations Foundations.UnixPath
open Campd (Spec SidecarProcess LaunchProcess Command Env WellFormedSidecar WellFormedUser
  fromSidecar buildCommand validPath)
open Sandrun (Setting Options Config Usable parseArgs)

/-! ### The declared configuration -/

def sandrunUser : Campd.ProcessUser → Sandrun.ProcessUser
  | .named user => .named user.name
  | .numeric user => .numeric user.uid user.gid

def sandrunBind (bind : Campd.Bind) : Sandrun.Bind := ⟨bind.source, bind.target, bind.readonly⟩

def sandrunWorkdir (workdir : Bytes) : Bytes := if workdir ≠ [] then workdir else lit "/"

/-- The configuration a sidecar declares. -/
def declaredConfig (process : SidecarProcess) : Config where
  rootfs := process.rootfs
  overlayDevice := process.overlayDevice
  overlayId := some process.name
  workdir := sandrunWorkdir process.workdir
  user := process.user.map sandrunUser
  standardMounts := process.standardMounts
  diskMounts := process.diskMounts
  binds := process.binds.map sandrunBind
  tmpfs := []
  command := process.command

/-! ### The argument vector as settings -/

def userSettings : Option Campd.ProcessUser → List Setting
  | none => []
  | some (.named user) => [.user user.name]
  | some (.numeric user) => [.uid (decimal user.uid.toNat), .gid (decimal user.gid.toNat)]

def sidecarSettings (process : SidecarProcess) : List Setting :=
  [.rootfs process.rootfs] ++ process.overlayDevice.toList.map .overlayDevice ++
    [.overlayId process.name] ++ (if process.standardMounts then [.standardMounts] else []) ++
    process.diskMounts.map .diskMount ++ process.binds.map (fun bind => .bind (sandrunBind bind)) ++
    (if process.workdir ≠ [] then [.workdir process.workdir] else []) ++
    userSettings process.user

def sidecarArgs (process : SidecarProcess) : List Bytes :=
  Campd.sandrunArgs (fromSidecar process) process.rootfs process.overlayDevice
    process.standardMounts process.diskMounts process.binds process.user

theorem userArgs_eq (user : Option Campd.ProcessUser) :
    Campd.userArgs user = (userSettings user).flatMap Setting.arguments := by
  cases user with
  | none => rfl
  | some user => cases user <;> rfl

theorem sidecarArgs_eq (process : SidecarProcess) :
    sidecarArgs process =
      (sidecarSettings process).flatMap Setting.arguments ++ lit "--" :: process.command := by
  have hstandard : (if process.standardMounts then [lit "--standard-mounts"] else []) =
      (if process.standardMounts then [Setting.standardMounts] else []).flatMap
        Setting.arguments := by
    cases process.standardMounts <;> rfl
  have hworkdir : (if (fromSidecar process).workdir ≠ [] then
        [lit "--workdir", (fromSidecar process).workdir] else []) =
      (if process.workdir ≠ [] then [Setting.workdir process.workdir] else []).flatMap
        Setting.arguments := by
    show (if process.workdir ≠ [] then [lit "--workdir", process.workdir] else []) = _
    split_ifs <;> rfl
  simp only [sidecarArgs, Campd.sandrunArgs, sidecarSettings, List.flatMap_append, userArgs_eq,
    List.flatMap_map, List.append_assoc, hstandard, hworkdir]
  rfl

/-! ### The options they leave -/

/-- The local variables of the parser after all settings of a sidecar. -/
def sidecarOptions (process : SidecarProcess) : Options where
  rootfs := some process.rootfs
  overlayDevice := process.overlayDevice
  overlayId := some process.name
  workdir := sandrunWorkdir process.workdir
  userName := match process.user with
    | some (.named user) => some user.name
    | _ => none
  uid := match process.user with
    | some (.numeric user) => some user.uid
    | _ => none
  gid := match process.user with
    | some (.numeric user) => some user.gid
    | _ => none
  standardMounts := process.standardMounts
  diskMounts := process.diskMounts
  binds := process.binds.map sandrunBind
  tmpfs := []

theorem setAll_append (options : Options) (xs ys : List Setting) :
    options.setAll (xs ++ ys) = (options.setAll xs).bind fun next => next.setAll ys := by
  simp only [Options.setAll, List.foldlM_append]
  rfl

theorem ok_bind {ε α β : Type} (a : α) (f : α → Except ε β) : (Except.ok a).bind f = f a := rfl

theorem setAll_overlayDevice (options : Options) (device : Option Bytes)
    (h : options.overlayDevice = none) :
    options.setAll (device.toList.map .overlayDevice) =
      .ok { options with overlayDevice := device } := by
  cases device with
  | none =>
    cases options
    cases h
    rfl
  | some device => rfl

theorem setAll_standardMounts (options : Options) (given : Bool)
    (h : options.standardMounts = false) :
    options.setAll (if given then [.standardMounts] else []) =
      .ok { options with standardMounts := given } := by
  cases given with
  | false =>
    cases options
    cases h
    rfl
  | true => rfl

theorem setAll_workdir (options : Options) (workdir : Bytes) (h : options.workdir = lit "/") :
    options.setAll (if workdir ≠ [] then [.workdir workdir] else []) =
      .ok { options with workdir := sandrunWorkdir workdir } := by
  by_cases hw : workdir ≠ []
  · rw [if_pos hw, sandrunWorkdir, if_pos hw]
    rfl
  · rw [if_neg hw, sandrunWorkdir, if_neg hw, ← h]
    rfl

theorem setAll_diskMounts (options : Options) (targets : List Bytes) :
    options.setAll (targets.map .diskMount) =
      .ok { options with diskMounts := options.diskMounts ++ targets } := by
  induction targets generalizing options with
  | nil =>
    rw [List.append_nil]
    rfl
  | cons target targets ih =>
    have h := ih { options with diskMounts := options.diskMounts ++ [target] }
    rw [List.append_assoc] at h
    exact h

theorem setAll_binds (options : Options) (binds : List Campd.Bind) :
    options.setAll (binds.map fun bind => .bind (sandrunBind bind)) =
      .ok { options with binds := options.binds ++ binds.map sandrunBind } := by
  induction binds generalizing options with
  | nil =>
    rw [List.map_nil, List.map_nil, List.append_nil]
    rfl
  | cons bind binds ih =>
    have h := ih { options with binds := options.binds ++ [sandrunBind bind] }
    rw [List.append_assoc] at h
    exact h

theorem validUserName_agrees (name : Bytes) (h : Campd.validUserName name = true) :
    Sandrun.validUserName name = true := by
  cases name with
  | nil => cases h
  | cons first rest =>
    simp only [Campd.validUserName, Bool.and_eq_true, List.all_cons] at h
    obtain ⟨⟨hlength, hfirst⟩, hhead, hrest⟩ := h
    have hascii : Utf8.valid (first :: rest) = true := by
      refine Utf8.valid_of_ascii _ fun b hb => ?_
      rcases List.mem_cons.mp hb with rfl | hb
      · exact Campd.nameByte_lt _ hhead
      · exact Campd.nameByte_lt b (List.all_eq_true.mp hrest b hb)
    have hall : rest.all Sandrun.userNameByte = true := hrest
    simp only [Sandrun.validUserName, Sandrun.toStr, hascii, if_true, hall, Bool.and_true,
      Bool.and_eq_true]
    exact ⟨hlength, hfirst⟩

theorem parseUserId_decimal (option : Bytes) (id : UInt32) (h : id ≠ 0xFFFFFFFF) :
    Sandrun.parseUserId option (decimal id.toNat) = .ok id := by
  have hdigit := decimal_isAsciiDigit id.toNat
  have hvalid : Utf8.valid (decimal id.toNat) = true :=
    Utf8.valid_of_ascii _ fun b hb => isAsciiDigit_lt b (hdigit b hb)
  have hne : id.toNat ≠ 2 ^ 32 - 1 := by
    intro he
    exact h (UInt32.toNat_inj.mp he)
  have hparse := parseUnsigned_decimal (2 ^ 32) id.toNat id.toNat_lt
  have hall : (decimal id.toNat).all isAsciiDigit = true := List.all_eq_true.mpr hdigit
  simp only [Sandrun.parseUserId, Sandrun.toStr, hvalid, if_true, Option.filter, hall,
    decimal_ne_nil, ne_eq, not_false_eq_true, and_self, decide_true, Option.bind_some, hparse,
    hne, Option.map_some, UInt32.ofNat_toNat]
  rfl

theorem setAll_user (process : SidecarProcess) (options : Options)
    (hfree : options.userName = none ∧ options.uid = none ∧ options.gid = none)
    (huser : ∀ user, process.user = some user → WellFormedUser user) :
    options.setAll (userSettings process.user) = .ok { options with
      userName := (sidecarOptions process).userName
      uid := (sidecarOptions process).uid
      gid := (sidecarOptions process).gid } := by
  obtain ⟨hname, huid, hgid⟩ := hfree
  cases hu : process.user with
  | none =>
    cases options
    cases hname
    cases huid
    cases hgid
    simp only [sidecarOptions, hu]
    rfl
  | some user =>
    cases user with
    | named user =>
      have hvalid := validUserName_agrees user.name (huser _ hu)
      simp [userSettings, Options.setAll, Options.set, sidecarOptions, hu, hvalid, hname, huid,
        hgid, rejectIf, bind, Except.bind, pure, Except.pure]
    | numeric user =>
      obtain ⟨huidBound, hgidBound⟩ := huser _ hu
      have hreadUid := parseUserId_decimal (lit "--uid") user.uid huidBound
      have hreadGid := parseUserId_decimal (lit "--gid") user.gid hgidBound
      simp [userSettings, Options.setAll, Options.set, sidecarOptions, hu, hreadUid, hreadGid,
        hname, huid, hgid, rejectIf, bind, Except.bind, pure, Except.pure]

theorem setAll_sidecarSettings (process : SidecarProcess)
    (huser : ∀ user, process.user = some user → WellFormedUser user) :
    Options.initial.setAll (sidecarSettings process) = .ok (sidecarOptions process) := by
  have hroot : Options.initial.setAll [.rootfs process.rootfs] =
      .ok { Options.initial with rootfs := some process.rootfs } := rfl
  have hid : ∀ options : Options, options.setAll [.overlayId process.name] =
      .ok { options with overlayId := some process.name } := fun _ => rfl
  simp only [sidecarSettings, setAll_append]
  rw [hroot, ok_bind, setAll_overlayDevice _ _ rfl, ok_bind, hid, ok_bind,
    setAll_standardMounts _ _ rfl, ok_bind, setAll_diskMounts, ok_bind, setAll_binds, ok_bind,
    setAll_workdir _ _ rfl, ok_bind, setAll_user process _ ⟨rfl, rfl, rfl⟩ huser]
  rfl

/-! ### The verdict of the parser -/

theorem cleanPath_of_validPath (path : Bytes) (root : Bool) (h : validPath path root = true) :
    Sandrun.cleanPath path root = true := by
  cases root with
  | true =>
    rw [Sandrun.cleanPath_true]
    exact ((Campd.validPath_true path).mp h).2
  | false => exact (Sandrun.cleanPath_false path).mpr ((Campd.validPath_false path).mp h).2

theorem executable_clean (command : List Bytes) (h : Campd.validExecutable command = true) :
    ∃ executable rest, command = executable :: rest ∧
      Sandrun.cleanPath executable false = true := by
  cases command with
  | nil => cases h
  | cons executable rest => exact ⟨executable, rest, rfl, cleanPath_of_validPath _ _ h⟩

theorem combineUser_sidecar (process : SidecarProcess) :
    Sandrun.combineUser (sidecarOptions process).userName (sidecarOptions process).uid
      (sidecarOptions process).gid = .ok (process.user.map sandrunUser) := by
  unfold sidecarOptions
  cases process.user with
  | none => rfl
  | some user => cases user <;> rfl

theorem mountTargets_sidecar (process : SidecarProcess) :
    Sandrun.mountTargets process.standardMounts process.diskMounts
      (process.binds.map sandrunBind) [] = process.mountTargets := by
  have htargets : (process.binds.map sandrunBind).map (·.target) = process.binds.map (·.target) := by
    simp [sandrunBind]
  rw [Sandrun.mountTargets, htargets, List.append_nil]
  rfl

/-- Among the conditions of the parser only the overlay device of a disk mount
is not already ensured by campd. -/
theorem usable_iff (process : SidecarProcess) (h : WellFormedSidecar process) (rootfs : Bytes)
    (user : Option Sandrun.ProcessUser) :
    Usable (sidecarOptions process) process.command rootfs user ↔
      (process.diskMounts = [] ∨ process.overlayDevice.isSome = true) ∧
        rootfs = process.rootfs ∧ user = process.user.map sandrunUser := by
  constructor
  · intro hu
    refine ⟨?_, (Option.some.inj hu.rootfs_given).symm, ?_⟩
    · by_cases hd : process.diskMounts = []
      · exact Or.inl hd
      · exact Or.inr (hu.disk_device hd)
    · have hc := hu.user_given
      rw [combineUser_sidecar] at hc
      exact (Except.ok.inj hc).symm
  · rintro ⟨hdevice, rfl, rfl⟩
    have hname : process.name ≠ [] ∧ process.name.length ≤ 256 := by
      have hn := h.common.name
      cases hp : process.name with
      | nil =>
        rw [hp] at hn
        cases hn
      | cons first rest =>
        rw [hp] at hn
        simp only [Campd.validName, Bool.and_eq_true, decide_eq_true_eq] at hn
        exact ⟨List.cons_ne_nil _ _, by omega⟩
    refine ⟨rfl, cleanPath_of_validPath _ _ h.rootfs, ?_, ?_, fun _ => rfl, ?_, ?_,
      executable_clean _ h.common.executable, ?_, ?_, by simp [sidecarOptions], ?_,
      combineUser_sidecar process⟩
    · exact fun device hd => cleanPath_of_validPath _ _ (h.overlayDevice device hd)
    · rintro id he
      rw [← Option.some.inj he]
      exact hname
    · exact fun hd => hdevice.resolve_left hd
    · show Sandrun.cleanPath (sandrunWorkdir process.workdir) true = true
      unfold sandrunWorkdir
      split_ifs with hw
      · exact cleanPath_of_validPath _ _ (h.common.workdir.resolve_left hw)
      · decide
    · exact fun target ht => cleanPath_of_validPath _ _ (h.diskMounts target ht)
    · intro bind hb
      obtain ⟨declared, hd, rfl⟩ := List.mem_map.mp hb
      exact ⟨cleanPath_of_validPath _ _ (h.binds declared hd).1,
        cleanPath_of_validPath _ _ (h.binds declared hd).2⟩
    · show Unnested ((Sandrun.mountTargets process.standardMounts process.diskMounts
        (process.binds.map sandrunBind) []).map names)
      rw [mountTargets_sidecar]
      exact h.targets

/-- The parser on the command line of a well-formed sidecar. -/
theorem parseArgs_sidecarArgs (process : SidecarProcess) (h : WellFormedSidecar process)
    (config : Config) :
    parseArgs (sidecarArgs process) = .ok config ↔
      (process.diskMounts = [] ∨ process.overlayDevice.isSome = true) ∧
        config = declaredConfig process := by
  rw [sidecarArgs_eq, Sandrun.parseArgs_settings _ _ _ (setAll_sidecarSettings process h.user),
    Sandrun.finishArgs_eq_ok]
  constructor
  · rintro ⟨rootfs, user, hu, rfl⟩
    obtain ⟨hdevice, rfl, rfl⟩ := (usable_iff process h rootfs user).mp hu
    exact ⟨hdevice, rfl⟩
  · rintro ⟨hdevice, rfl⟩
    exact ⟨_, _, (usable_iff process h _ _).mpr ⟨hdevice, rfl, rfl⟩, rfl⟩

/-! ### Environments -/

/-- `env`, with the entries of `added` set one after the other. -/
def extendEnv (env added : Env) : Env :=
  added.toList.foldl (fun env entry => env.insert entry.1 entry.2) env

theorem childEnv_setEnvs (added start : Env) :
    (Campd.setEnvs added).foldl Campd.EnvOperation.apply start = extendEnv start added := by
  rw [Campd.setEnvs, List.foldl_map]
  rfl

/-- The environment a child's own entries are added to. -/
def baseEnv (source : Campd.ProcessSource) (inherited : Env) : Env :=
  match source with
  | .main _ => inherited
  | .sidecar .. => ∅

/-- What `build_command` makes of the environment of any child. -/
theorem buildCommand_childEnv {ε : Type} (process : LaunchProcess) (sandrun : Bytes)
    (command : Command) (h : (buildCommand process sandrun : Except (Failure ε) Command) = .ok command)
    (inherited : Env) :
    command.childEnv inherited =
      (extendEnv (baseEnv process.source inherited) process.env).erase Campd.specEnvironment := by
  cases hs : process.source with
  | main user =>
    simp only [buildCommand, hs, bind_eq_ok, expect_eq_ok, sliceFrom_eq_ok, Except.ok.injEq,
      exists_eq_left'] at h
    obtain ⟨program, -, args, -, rfl⟩ := h
    simp only [Command.childEnv, List.foldl_append, childEnv_setEnvs, List.foldl_cons,
      List.foldl_nil, Campd.EnvOperation.apply, baseEnv]
  | sidecar =>
    simp only [buildCommand, hs, bind_eq_ok, Except.ok.injEq, exists_eq_left'] at h
    subst h
    simp only [Command.childEnv, List.foldl_append, childEnv_setEnvs, List.foldl_cons,
      List.foldl_nil, Campd.EnvOperation.apply, baseEnv]

theorem specEnvironment_not_mem {ε : Type} (process : LaunchProcess) (sandrun : Bytes)
    (command : Command) (h : (buildCommand process sandrun : Except (Failure ε) Command) = .ok command)
    (inherited : Env) : Campd.specEnvironment ∉ command.childEnv inherited := by
  rw [buildCommand_childEnv process sandrun command h inherited]
  simp

theorem erase_specEnvironment (process : Campd.CommonProcess)
    (h : Campd.WellFormedCommon process) : process.env.erase Campd.specEnvironment = process.env := by
  refine Std.ExtTreeMap.ext_getElem? fun key => ?_
  rw [Std.ExtTreeMap.getElem?_erase]
  split_ifs with hk
  · cases he : process.env[key]? with
    | none => rfl
    | some value =>
      have hmem := Std.ExtTreeMap.mem_toList_iff_getElem?_eq_some.mpr he
      have hkey : Campd.specEnvironment = key := Std.LawfulEqOrd.eq_of_compare hk
      exact absurd hkey.symm (h.env _ hmem).2.2
  · rfl

theorem buildCommand_sidecar {ε : Type} (process : SidecarProcess) (sandrun : Bytes) :
    ∃ command, (buildCommand (fromSidecar process) sandrun : Except (Failure ε) Command) =
        .ok command ∧ command.program = sandrun ∧ command.args = sidecarArgs process :=
  ⟨_, rfl, rfl, rfl⟩

theorem childEnv_sidecar {ε : Type} (process : SidecarProcess)
    (hwell : Campd.WellFormedCommon process.toCommonProcess) (sandrun : Bytes) (command : Command)
    (h : (buildCommand (fromSidecar process) sandrun : Except (Failure ε) Command) = .ok command)
    (inherited : Env) : command.childEnv inherited = process.env := by
  have hset : extendEnv ∅ process.env = process.env := SortedMap.foldl_insert_toList process.env
  rw [buildCommand_childEnv _ sandrun command h inherited]
  show (extendEnv ∅ process.env).erase Campd.specEnvironment = process.env
  rw [hset]
  exact erase_specEnvironment _ hwell

/-- A command line can be built for every process with an executable. -/
theorem buildCommand_total {ε : Type} (process : LaunchProcess)
    (h : Campd.validExecutable process.command = true) (sandrun : Bytes) :
    ∃ command, (buildCommand process sandrun : Except (Failure ε) Command) = .ok command := by
  cases hs : process.source with
  | main user =>
    cases hc : process.command with
    | nil =>
      rw [hc] at h
      cases h
    | cons program args =>
      simp only [buildCommand, hs, hc, bind_eq_ok, expect_eq_ok, sliceFrom_eq_ok, Except.ok.injEq]
      exact ⟨_, program, rfl, args, ⟨by simp, rfl⟩, _, rfl, rfl⟩
  | sidecar =>
    simp only [buildCommand, hs, bind_eq_ok, Except.ok.injEq]
    exact ⟨_, _, rfl, rfl⟩

/-! ### The launch list -/

theorem processes_wellFormed (spec : Spec) (h : Campd.WellFormed spec) :
    ∀ process ∈ spec.processes, Campd.WellFormedCommon process := by
  intro process hp
  simp only [Spec.processes, List.mem_append, List.mem_map] at hp
  rcases hp with ⟨sidecar, hs, rfl⟩ | ⟨main, hm, rfl⟩
  · exact (h.sidecars sidecar hs).common
  · exact (h.main main hm).common

/-! ### Round trip and admission -/

/-- What reaches the children of a declaration, for a given path of sandrun. -/
structure HandedOver (spec : Spec) (sandrun : Bytes) : Prop where
  sidecar : ∀ process ∈ spec.sidecars, ∃ command,
    (buildCommand (fromSidecar process) sandrun : Except (Failure Campd.RuntimeError) Command) =
        .ok command ∧
      command.program = sandrun ∧
      (process.diskMounts = [] ∨ process.overlayDevice.isSome = true →
        parseArgs command.args = .ok (declaredConfig process)) ∧
      ∀ inherited, command.childEnv inherited = process.env
  child : ∀ file launch, Campd.flatten file spec = .ok launch → ∀ process ∈ launch, ∃ command,
    (buildCommand process sandrun : Except (Failure Campd.RuntimeError) Command) = .ok command ∧
      ∀ inherited, Campd.specEnvironment ∉ command.childEnv inherited

theorem sandrun_reads_declaration (spec : Spec) (sandrun : Bytes)
    (h : Campd.validate spec = .ok ()) : HandedOver spec sandrun := by
  have hwell := (Campd.validate_eq_ok spec).mp h
  constructor
  · intro process hp
    have hsidecar := hwell.sidecars process hp
    obtain ⟨command, hbuild, hprogram, hargs⟩ := buildCommand_sidecar process sandrun
    refine ⟨command, hbuild, hprogram, ?_, childEnv_sidecar process hsidecar.common sandrun _ hbuild⟩
    intro hdevice
    rw [hargs]
    exact (parseArgs_sidecarArgs process hsidecar _).mpr ⟨hdevice, rfl⟩
  · intro file launch hflat process hp
    have hmem : process.toCommonProcess ∈ spec.processes := by
      rw [← Campd.flatten_common file spec launch hflat]
      exact List.mem_map_of_mem hp
    have hcommon := processes_wellFormed spec hwell _ hmem
    obtain ⟨command, hbuild⟩ := buildCommand_total process hcommon.executable sandrun
    exact ⟨command, hbuild, specEnvironment_not_mem process sandrun command hbuild⟩

/-- A sidecar whose arguments look like options of sandrun. -/
def proxySidecar : SidecarProcess where
  name := lit "proxy"
  kind := .service
  command := [lit "/opt/proxy/server", lit "--", lit "--user", lit "root"]
  env := Std.ExtTreeMap.ofList [(lit "MODE", lit "fast")] compare
  workdir := lit "/opt/proxy"
  readinessProbe := none
  completionTimeoutMs := none
  rootfs := lit "/mnt/proxy"
  overlayDevice := some (lit "/dev/vdb")
  standardMounts := true
  diskMounts := [lit "/var/lib/docker"]
  binds := [⟨lit "/share", lit "/mnt/share", true⟩]
  user := some (.numeric ⟨0, 65532⟩)

def proxySpec : Spec := ⟨3, [proxySidecar], []⟩

theorem sandrun_reads_proxySpec : HandedOver proxySpec (lit "/opt/sandrun") :=
  sandrun_reads_declaration proxySpec (lit "/opt/sandrun") (by decide +kernel)

/-- sandrun accepts what campd has admitted exactly when a disk mount comes with
an overlay device: that requirement is sandrun's alone. -/
theorem sandrun_admits_iff (spec : Spec) (h : Campd.validate spec = .ok ())
    (process : SidecarProcess) (hp : process ∈ spec.sidecars) (sandrun : Bytes)
    (command : Command)
    (hbuild : (buildCommand (fromSidecar process) sandrun :
      Except (Failure Campd.RuntimeError) Command) = .ok command) :
    (∃ config, parseArgs command.args = .ok config) ↔
      process.diskMounts = [] ∨ process.overlayDevice.isSome = true := by
  have hwell := ((Campd.validate_eq_ok spec).mp h).sidecars process hp
  obtain ⟨built, hbuilt, -, hargs⟩ := buildCommand_sidecar process sandrun
  rw [hbuilt] at hbuild
  rw [← Except.ok.inj hbuild, hargs]
  simp only [parseArgs_sidecarArgs process hwell]
  constructor
  · rintro ⟨-, hdevice, -⟩
    exact hdevice
  · intro hdevice
    exact ⟨_, hdevice, rfl⟩

/-- A disk mount without an overlay device. -/
def diskSidecar : SidecarProcess := { proxySidecar with overlayDevice := none }

def diskSpec : Spec := ⟨3, [diskSidecar], []⟩

theorem sandrun_admits_proxySpec :
    (∃ config, parseArgs (sidecarArgs proxySidecar) = .ok config) ↔
      proxySidecar.diskMounts = [] ∨ proxySidecar.overlayDevice.isSome = true :=
  sandrun_admits_iff proxySpec (by decide +kernel) proxySidecar (by decide +kernel)
    (lit "/opt/sandrun") _ rfl

theorem sandrun_rejects_diskSpec :
    ¬∀ spec, Campd.validate spec = .ok () → ∀ process ∈ spec.sidecars, ∀ sandrun command,
      (buildCommand (fromSidecar process) sandrun :
          Except (Failure Campd.RuntimeError) Command) = .ok command →
        ∃ config, parseArgs command.args = .ok config := by
  intro h
  have hvalid : Campd.validate diskSpec = .ok () := by decide +kernel
  have hrejected : parseArgs (sidecarArgs diskSidecar) =
      .error (.error .diskMountRequiresOverlayDevice) := by decide +kernel
  obtain ⟨config, hconfig⟩ := h diskSpec hvalid diskSidecar List.mem_cons_self
    (lit "/opt/sandrun") _ rfl
  have hargs : parseArgs (sidecarArgs diskSidecar) = .ok config := hconfig
  rw [hrejected] at hargs
  cases hargs

end Sandcamp.Handoff
