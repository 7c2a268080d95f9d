import Sandcamp.Sandrun.Footprint

/-!
# What a run does before its command (linux.rs:70-136, 1201-1378)

Whatever the files are and whatever others do meanwhile: when `exec` is called, the calls that
concern the process have been those that the configuration asks for, in one order, and each of them
has succeeded. And all files that were changed lay on the way to a bind source before the namespace
was left, and below the overlay base, not below the rootfs image, afterwards.
-/

namespace Sandcamp.Sandrun
open Foundations Foundations.UnixPath Foundations.Thread

/-- The events that concern the process. -/
def effective (history : List Event) : List Event := history.filter fun event => event.1.effective

/-! ### What a configuration asks for -/

/-- `fs::canonicalize` has answered so. -/
def resolved (path canonical : Bytes) : Event := ⟨.canonicalize path, .ok canonical⟩

/-- `mount` has succeeded. -/
def mounted (source : Option Bytes) (target : Bytes) (filesystem : Option Bytes)
    (flags : MountFlags) (data : Option Bytes) : Event :=
  ⟨.mount source target filesystem flags data, true⟩

def remounted (target : Bytes) : Event := mounted none target none Linux.remountReadonly none

def boundReadonly (source target : Bytes) : List Event :=
  [mounted (some source) target none { MountFlags.none with msBind := true } none, remounted target]

/-- The mounts of an operation. -/
def MountOperation.events : MountOperation → List Event
  | .proc target => [mounted (some (lit "proc")) target (some (lit "proc"))
      { MountFlags.none with msNosuid := true, msNodev := true, msNoexec := true } none]
  | .bind prepared => mounted (some prepared.source) prepared.target none
      { MountFlags.none with msBind := true, msRec := prepared.recursive } none ::
        if prepared.readonly then [remounted prepared.target] else []
  | .tmpfs target mode => [mounted (some (lit "tmpfs")) target (some (lit "tmpfs"))
      { MountFlags.none with msNosuid := true, msNodev := true } (some (Linux.modeOption mode))]
  | .dnsFiles target resolvConf hosts =>
    boundReadonly resolvConf (push target (lit "resolv.conf")) ++
      boundReadonly hosts (push target (lit "hosts"))

/-- The calls of a change of identity. -/
def UserIdentity.events (identity : UserIdentity) : List Event :=
  (if identity.uid ≠ 0 then [⟨.credential .clearAmbient, true⟩] else []) ++
  [⟨.credential (.setGroups []), true⟩,
    ⟨.credential (.setResGid identity.gid identity.gid identity.gid), true⟩,
    ⟨.credential (.setResUid identity.uid identity.uid identity.uid), true⟩] ++
  (if identity.uid ≠ 0 then
    [⟨.credential (.capSet 0 0 0), true⟩, ⟨.credential .setNoNewPrivs, true⟩] else []) ++
  [⟨.ids, (identity.uid, identity.uid, identity.gid, identity.gid)⟩]

/-- What is decided during a run. -/
structure Plan where
  lower : Bytes
  device : Option Bytes
  layers : Linux.LayerPaths
  operations : List MountOperation
  identity : Option UserIdentity

/-- Leaving the namespace of the caller. -/
def separated : List Event :=
  [⟨.unshare, true⟩, mounted none (lit "/") none
    { MountFlags.none with msRec := true, msPrivate := true } none]

def deviceMounted (device : Option Bytes) : List Event :=
  device.toList.map fun device =>
    mounted (some device) Linux.overlayDeviceMount (some (lit "ext4")) MountFlags.none none

def overlayMounted (lower : Bytes) (layers : Linux.LayerPaths) : Event :=
  mounted (some (lit "overlay")) layers.merged (some (lit "overlay")) MountFlags.none
    (some (overlayOptions lower layers.upper layers.work))

/-- All that concerns the process, up to the call of `exec`. -/
def Plan.events (plan : Plan) (workdir : Bytes) : List Event :=
  separated ++ deviceMounted plan.device ++ [overlayMounted plan.lower plan.layers] ++
  plan.operations.flatMap MountOperation.events ++
  [⟨.chdir plan.layers.merged, true⟩, ⟨.pivotRoot, true⟩, ⟨.detach, true⟩, ⟨.chdir (lit "/"), true⟩,
    ⟨.chdir workdir, true⟩] ++
  plan.identity.toList.flatMap UserIdentity.events

/-- The base of the overlays. -/
def Config.base (config : Config) : Bytes :=
  match config.overlayDevice with
  | none => Linux.overlayBase
  | some _ => push Linux.overlayDeviceMount Linux.overlayDeviceNamespace

/-- An entry that is no link was found at the path. -/
def PlainAt (history : List Event) (path : Bytes) : Prop :=
  ∃ found : Metadata, found.fileType ≠ .symlink ∧
    (⟨.symlinkMetadata path, .ok found⟩ : Event) ∈ history

/-- A link was found at the path, and this text in it. -/
def LinkAt (history : List Event) (path link : Bytes) : Prop :=
  ∃ found : Metadata, found.fileType = .symlink ∧
    (⟨.symlinkMetadata path, .ok found⟩ : Event) ∈ history ∧
    (⟨.readLink path, some link⟩ : Event) ∈ history

/-- From one position in the rootfs the names lead to another, by what was found on the way: a link
that is absolute goes on at the root of the rootfs, and no link leads out of it. -/
inductive Resolves (rootfs : Bytes) (history : List Event) : Position → List Bytes → Position → Prop
  | here {above : Position} : Resolves rootfs history above [] above
  | plain {above : Position} {name : Bytes} {rest : List Bytes} {position : Position}
      (hplain : PlainAt history (physical rootfs (above ++ [name])))
      (h : Resolves rootfs history (above ++ [name]) rest position) :
      Resolves rootfs history above (name :: rest) position
  | link {above : Position} {name link next : Bytes} {rest : List Bytes} {position : Position}
      (hlink : LinkAt history (physical rootfs (above ++ [name])) link)
      (hnext : normalizeInnerPath (redirect above link rest) = some next)
      (h : Resolves rootfs history [] (names next) position) :
      Resolves rootfs history above (name :: rest) position

/-- An absolute path leads here in the rootfs. -/
def Located (rootfs : Bytes) (history : List Event) (target path : Bytes) : Prop :=
  ∃ start position, normalizeInnerPath target = some start ∧
    Resolves rootfs history [] (names start) position ∧ path = physical rootfs position

/-- The bind mount of a bind: where its target leads in the rootfs, of what its source was found to
be. -/
structure BindOf (rootfs : Bytes) (recursive : Bool) (history : List Event) (bind : Bind)
    (prepared : PreparedBind) : Prop where
  source : resolved bind.source prepared.source ∈ history
  target : Located rootfs history bind.target prepared.target
  readonly : prepared.readonly = bind.readonly
  recursive : prepared.recursive = true → recursive = true

/-- The mounts of `--standard-mounts`. -/
structure StandardOf (rootfs : Bytes) (history : List Event) (proc : Bytes)
    (dev sys cgroup : PreparedBind) (tmp run etc resolvConf hosts : Bytes) : Prop where
  proc : Located rootfs history (lit "/proc") proc
  dev : BindOf rootfs true history ⟨lit "/dev", lit "/dev", false⟩ dev
  sys : BindOf rootfs false history ⟨lit "/sys", lit "/sys", true⟩ sys
  cgroup : BindOf rootfs true history hostCgroupBind cgroup
  tmp : Located rootfs history (lit "/tmp") tmp
  run : Located rootfs history (lit "/run") run
  etc : Located rootfs history (lit "/etc") etc
  resolvConf : resolved (lit "/etc/resolv.conf") resolvConf ∈ history
  hosts : resolved (lit "/etc/hosts") hosts ∈ history

def standardOperations (proc : Bytes) (dev sys cgroup : PreparedBind)
    (tmp run etc resolvConf hosts : Bytes) : List MountOperation :=
  [.proc proc, .bind dev, .bind sys, .bind cgroup, .tmpfs tmp 0o1777, .tmpfs run 0o755,
    .dnsFiles etc resolvConf hosts]

/-- The operations of `--standard-mounts`, if it is given. -/
def StandardFor (rootfs : Bytes) (history : List Event) (operations : List MountOperation) :
    Bool → Prop
  | false => operations = []
  | true => ∃ proc dev sys cgroup tmp run etc resolvConf hosts,
      StandardOf rootfs history proc dev sys cgroup tmp run etc resolvConf hosts ∧
        operations = standardOperations proc dev sys cgroup tmp run etc resolvConf hosts

/-- The bind of a disk mount. -/
def diskBind (sha256 : Bytes → Bytes) (base lower overlayId target : Bytes) : Bind :=
  ⟨push (push base (lit "disk-mounts"))
    (hexLower (sha256 (diskMountIdentity overlayId lower target))), target, false⟩

/-- The operations are those of the configuration, in its order. -/
structure OperationsOf (sha256 : Bytes → Bytes) (config : Config) (lower rootfs : Bytes)
    (history : List Event) (operations : List MountOperation) : Prop where
  order : ∃ standard binds tmpfs disk,
    operations = standard ++ binds.map .bind ++ (tmpfs.map fun target => .tmpfs target 0o755) ++
      disk.map .bind ∧
    StandardFor rootfs history standard config.standardMounts ∧
    List.Forall₂ (BindOf rootfs false history) config.binds binds ∧
    List.Forall₂ (Located rootfs history) config.tmpfs tmpfs ∧
    (config.diskMounts = [] ∧ disk = [] ∨ ∃ overlayId, config.overlayId = some overlayId ∧
      List.Forall₂ (fun target => BindOf rootfs false history
        (diskBind sha256 config.base lower overlayId target)) config.diskMounts disk)

/-- The identity is that of the configured user. -/
def IdentityOf (lower : Bytes) (history : List Event) (identity : Option UserIdentity) :
    Option ProcessUser → Prop
  | none => identity = none
  | some (.numeric uid gid) => identity = some ⟨uid, gid⟩
  | some (.named user) => ∃ passwd contents found,
      Located lower history (lit "/etc/passwd") passwd ∧
      (⟨.readFile passwd (maxPasswdBytes + 1), some contents⟩ : Event) ∈ history ∧
      parsePasswd contents user = .ok found ∧ identity = some found

/-- The overlay device is the configured one. -/
def DeviceOf (history : List Event) : Option Bytes → Option Bytes → Prop
  | none, device => device = none
  | some configured, device => ∃ canonical, device = some canonical ∧
      resolved configured canonical ∈ history

/-- The plan is one for this configuration. -/
structure Plan.Fits (plan : Plan) (sha256 : Bytes → Bytes) (config : Config)
    (history : List Event) : Prop where
  lower : [resolved config.rootfs plan.lower] <+: history
  device : DeviceOf history config.overlayDevice plan.device
  layers : LayersOf sha256 config.base plan.lower plan.layers config.overlayId
  operations : OperationsOf sha256 config plan.lower plan.layers.merged history plan.operations
  identity : IdentityOf plan.lower history plan.identity config.user

/-- What has happened when `exec` is called. -/
def Complete (sha256 : Bytes → Bytes) (config : Config) (history : List Event)
    (program : Bytes) (arguments : List Bytes) : Prop :=
  config.command = program :: arguments ∧ ∃ plan : Plan, plan.Fits sha256 config history ∧
    effective history = plan.events config.workdir

/-- `exec` has succeeded, when all of this had happened. -/
def Became (sha256 : Bytes → Bytes) (config : Config) (history : List Event) : Prop :=
  ∃ before program arguments, history = before ++ [⟨.exec program arguments, true⟩] ∧
    Complete sha256 config before program arguments

/-! ### Where files may be changed -/

/-- The directories that are made for an overlay device. -/
def Config.deviceDirectories (config : Config) : List Bytes :=
  match config.overlayDevice with
  | none => []
  | some _ => [Linux.overlayDeviceMount, config.base]

/-- Where a run may change files after these events. -/
def Confined (config : Config) (history : List Event) (path : Bytes) : Prop :=
  if effective history = [] then ∃ bind ∈ config.binds, Along bind.source path
  else path ∈ config.deviceDirectories ∨ Beneath config.base path ∧
    ∃ lower, [resolved config.rootfs lower] <+: history ∧ startsWith path lower = false

/-! ### Histories -/

theorem effective_append (history more : List Event) :
    effective (history ++ more) = effective history ++ effective more :=
  List.filter_append ..

/-- A history has gone on; these are the events that concern the process. -/
structure Adds (events history history' : List Event) : Prop where
  grown : history <+: history'
  effective : effective history' = effective history ++ events

theorem adds_refl (history : List Event) : Adds [] history history :=
  ⟨List.prefix_refl _, (List.append_nil _).symm⟩

theorem Adds.trans {events events' first middle last : List Event} (h : Adds events first middle)
    (h' : Adds events' middle last) : Adds (events ++ events') first last :=
  ⟨h.grown.trans h'.grown, by rw [h'.effective, h.effective, List.append_assoc]⟩

theorem adds_event {event : Event} (history : List Event) (h : event.1.effective = true) :
    Adds [event] history (history ++ [event]) := by
  refine ⟨List.prefix_append _ _, ?_⟩
  rw [effective_append, effective, effective, List.filter_singleton, h]
  rfl

theorem adds_quiet {history more : List Event} (h : ∀ event ∈ more, event.1.effective = false) :
    Adds [] history (history ++ more) := by
  refine ⟨List.prefix_append _ _, ?_⟩
  have hnone : effective more = [] := List.filter_eq_nil_iff.mpr fun event hevent => by
    simp [h event hevent]
  rw [effective_append, hnone]

theorem confined_adds {config : Config} {history history' : List Event} {path : Bytes}
    (hadds : Adds [] history history') (h : Confined config history path) :
    Confined config history' path := by
  unfold Confined at h ⊢
  rw [hadds.effective, List.append_nil]
  split_ifs at h ⊢ with hfirst
  · exact h
  · rcases h with hdevice | ⟨hbase, lower, hlower, hapart⟩
    · exact Or.inl hdevice
    · exact Or.inr ⟨hbase, lower, hlower.trans hadds.grown, hapart⟩

theorem PlainAt.grows {history history' : List Event} (hgrown : history <+: history')
    {path : Bytes} (h : PlainAt history path) : PlainAt history' path := by
  obtain ⟨found, htype, hmem⟩ := h
  exact ⟨found, htype, hgrown.subset hmem⟩

theorem Resolves.grows {rootfs : Bytes} {history history' : List Event}
    (hgrown : history <+: history') {above position : Position} {path : List Bytes}
    (h : Resolves rootfs history above path position) :
    Resolves rootfs history' above path position := by
  induction h with
  | here => exact .here
  | plain hplain _ ih => exact .plain (hplain.grows hgrown) ih
  | link hlink hnext _ ih =>
    obtain ⟨found, htype, hmem, hread⟩ := hlink
    exact .link ⟨found, htype, hgrown.subset hmem, hgrown.subset hread⟩ hnext ih

theorem Resolves.proper {rootfs : Bytes} {history : List Event} {above position : Position}
    {path : List Bytes} (h : Resolves rootfs history above path position) (habove : Proper above)
    (hpath : Proper path) : Proper position := by
  induction h with
  | here => exact habove
  | plain _ _ ih =>
    exact ih (proper_snoc habove (hpath _ List.mem_cons_self))
      fun name hname => hpath name (List.mem_cons_of_mem _ hname)
  | link _ _ _ ih => exact ih (fun _ hname => (List.not_mem_nil hname).elim) (names_proper _)

theorem Located.grows {rootfs : Bytes} {history history' : List Event}
    (hgrown : history <+: history') {target path : Bytes}
    (h : Located rootfs history target path) : Located rootfs history' target path := by
  obtain ⟨start, position, hstart, hresolves, hpath⟩ := h
  exact ⟨start, position, hstart, hresolves.grows hgrown, hpath⟩

/-- Wherever a path leads, it is below the rootfs. -/
theorem Located.beneath {rootfs : Bytes} {history : List Event} {target path : Bytes}
    (h : Located rootfs history target path) : Beneath rootfs path := by
  obtain ⟨start, position, -, hresolves, rfl⟩ := h
  exact beneath_physical rootfs
    (hresolves.proper (fun _ hname => (List.not_mem_nil hname).elim) (names_proper start))

theorem BindOf.grows {rootfs : Bytes} {recursive : Bool} {history history' : List Event}
    (hgrown : history <+: history') {bind : Bind} {prepared : PreparedBind}
    (h : BindOf rootfs recursive history bind prepared) :
    BindOf rootfs recursive history' bind prepared :=
  ⟨hgrown.subset h.source, h.target.grows hgrown, h.readonly, h.recursive⟩

theorem StandardFor.grows {rootfs : Bytes} {history history' : List Event}
    (hgrown : history <+: history') {operations : List MountOperation} {standardMounts : Bool}
    (h : StandardFor rootfs history operations standardMounts) :
    StandardFor rootfs history' operations standardMounts := by
  cases standardMounts with
  | false => exact h
  | true =>
    obtain ⟨proc, dev, sys, cgroup, tmp, run, etc, resolvConf, hosts, hstandard, hoperations⟩ := h
    exact ⟨proc, dev, sys, cgroup, tmp, run, etc, resolvConf, hosts,
      { proc := hstandard.proc.grows hgrown
        dev := hstandard.dev.grows hgrown
        sys := hstandard.sys.grows hgrown
        cgroup := hstandard.cgroup.grows hgrown
        tmp := hstandard.tmp.grows hgrown
        run := hstandard.run.grows hgrown
        etc := hstandard.etc.grows hgrown
        resolvConf := hgrown.subset hstandard.resolvConf
        hosts := hgrown.subset hstandard.hosts }, hoperations⟩

theorem OperationsOf.grows {sha256 : Bytes → Bytes} {config : Config} {lower rootfs : Bytes}
    {history history' : List Event} (hgrown : history <+: history')
    {operations : List MountOperation}
    (h : OperationsOf sha256 config lower rootfs history operations) :
    OperationsOf sha256 config lower rootfs history' operations := by
  obtain ⟨standard, binds, tmpfs, disk, hoperations, hstandard, hbinds, htmpfs, hdisk⟩ := h.order
  refine ⟨⟨standard, binds, tmpfs, disk, hoperations, hstandard.grows hgrown,
    hbinds.imp fun _ _ hbind => hbind.grows hgrown,
    htmpfs.imp fun _ _ htarget => htarget.grows hgrown, ?_⟩⟩
  rcases hdisk with hnone | ⟨overlayId, hid, hall⟩
  · exact Or.inl hnone
  · exact Or.inr ⟨overlayId, hid, hall.imp fun _ _ hbind => hbind.grows hgrown⟩

theorem IdentityOf.grows {lower : Bytes} {history history' : List Event}
    (hgrown : history <+: history') {identity : Option UserIdentity} {user : Option ProcessUser}
    (h : IdentityOf lower history identity user) : IdentityOf lower history' identity user := by
  match user with
  | none => exact h
  | some (.numeric uid gid) => exact h
  | some (.named user) =>
    obtain ⟨passwd, contents, found, hpasswd, hread, hparsed⟩ := h
    exact ⟨passwd, contents, found, hpasswd.grows hgrown, hgrown.subset hread, hparsed⟩

theorem DeviceOf.grows {history history' : List Event} (hgrown : history <+: history')
    {configured device : Option Bytes} (h : DeviceOf history configured device) :
    DeviceOf history' configured device := by
  cases configured with
  | none => exact h
  | some configured =>
    obtain ⟨canonical, hcanonical, hmem⟩ := h
    exact ⟨canonical, hcanonical, hgrown.subset hmem⟩

/-! ### Following a run -/

/-- Files are changed where they may be, and `exec` is called when all is done. -/
def conduct (sha256 : Bytes → Bytes) (config : Config) : Monitor (List Event) Syscall Reply :=
  Monitor.chronicle fun history o => (∀ path, o.changed = some path → Confined config history path) ∧
    ∀ program arguments, o = .exec program arguments →
      Complete sha256 config history program arguments

namespace Linux

variable {sha256 : Bytes → Bytes} {config : Config} {history : List Event} {α : Type}

/-- Calls that concern files only. -/
theorem meets_files {area : Bytes → Prop} {Q : α → Prop} {t : Linux α}
    (ht : Asks (Filing area) Unchecked t Q) (harea : ∀ path, area path → Confined config history path) :
    Meets (conduct sha256 config) t history fun a history' => Adds [] history history' ∧ Q a := by
  refine meets_post (meets_chronicle ht fun more hmore o ho => ⟨fun path hpath => ?_, ?_⟩) ?_
  · exact confined_adds (adds_quiet fun event hevent => (hmore event hevent).quiet)
      (harea path (ho.area path hpath))
  · rintro program arguments rfl
    cases ho.quiet
  · rintro a history' ⟨ha, more, rfl, hmore⟩
    exact ⟨adds_quiet fun event hevent => (hmore event hevent).quiet, ha⟩

/-- Calls that only look at files. -/
theorem meets_looks {Q : α → Prop} {t : Linux α} (ht : Asks (Filing fun _ => False) Unchecked t Q) :
    Meets (conduct sha256 config) t history fun a history' => Adds [] history history' ∧ Q a :=
  meets_files ht fun _ h => h.elim

/-- A call that concerns the process, and its only answer that is no error. -/
theorem meets_must (o : Syscall) (accepted : Reply o → Bool) (error : RuntimeError)
    (answer : Reply o) (hquiet : o.effective = true) (hchanged : o.changed = none)
    (hexec : ∀ program arguments, o ≠ .exec program arguments)
    (honly : ∀ reply, accepted reply = true → reply = answer) :
    Meets (conduct sha256 config) (syscall o >>= fun reply => check (accepted reply) error) history
      fun _ history' => Adds [⟨o, answer⟩] history history' := by
  refine ⟨⟨fun path hpath => ?_, fun program arguments heq => absurd heq (hexec program arguments)⟩,
    fun reply => meets_post (meets_check _ _) ?_⟩
  · rw [hchanged] at hpath
    cases hpath
  · rintro _ _ ⟨rfl, haccepted⟩
    rw [honly reply haccepted]
    exact adds_event history hquiet

theorem meets_onlyIf (condition : Bool) {action : Linux Unit} {events : List Event}
    (h : Meets (conduct sha256 config) action history fun _ history' =>
      Adds events history history') :
    Meets (conduct sha256 config) (onlyIf condition action) history fun _ history' =>
      Adds (if condition then events else []) history history' := by
  cases condition with
  | true => exact h
  | false => exact adds_refl history

/-- One step after another. -/
theorem meets_then {events events' : List Event} {t u : Linux Unit}
    (ht : Meets (conduct sha256 config) t history fun _ history' => Adds events history history')
    (hu : ∀ history', Adds events history history' →
      Meets (conduct sha256 config) u history' fun _ history'' => Adds events' history' history'') :
    Meets (conduct sha256 config) (t >>= fun _ => u) history fun _ history' =>
      Adds (events ++ events') history history' :=
  meets_bind ht fun _ history' hadds => meets_post (hu history' hadds) fun _ _ hadds' =>
    hadds.trans hadds'

theorem meets_each_adds {events : α → List Event} {body : α → Linux Unit} {xs : List α}
    (h : ∀ x ∈ xs, ∀ history', history <+: history' →
      Meets (conduct sha256 config) (body x) history' fun _ history'' =>
        Adds (events x) history' history'') :
    Meets (conduct sha256 config) (Thread.each body xs) history fun _ history' =>
      Adds (xs.flatMap events) history history' := by
  induction xs generalizing history with
  | nil => exact adds_refl history
  | cons x xs ih =>
    refine meets_then (h x List.mem_cons_self history (List.prefix_refl _)) fun history' hadds => ?_
    exact ih fun y hy history'' hgrown =>
      h y (List.mem_cons_of_mem _ hy) history'' (hadds.grown.trans hgrown)

/-! ### Calls with their errors -/

theorem mountRaw_meets (source : Option Bytes) (target : Bytes) (filesystem : Option Bytes)
    (flags : MountFlags) (data : Option Bytes) (operation : String) :
    Meets (conduct sha256 config) (mountRaw source target filesystem flags data operation) history
      fun _ history' => Adds [mounted source target filesystem flags data] history history' := by
  have hoption : ∀ value : Option Bytes, Meets (conduct sha256 config)
      (optionalCString operation value) history fun _ history' => history' = history := by
    intro value
    cases value with
    | none => exact rfl
    | some value => exact meets_post (meets_check _ _) fun _ _ h => h.1
  refine meets_bind (hoption source) ?_
  rintro _ _ rfl
  refine meets_bind (meets_check _ _) ?_
  rintro _ _ ⟨rfl, -⟩
  refine meets_bind (hoption filesystem) ?_
  rintro _ _ rfl
  refine meets_bind (hoption data) ?_
  rintro _ _ rfl
  exact meets_must (.mount source target filesystem flags data) (fun reply => reply) _ true rfl rfl
    (fun _ _ => nofun) fun _ h => h

theorem changeDirectoryOuter_meets (path : Bytes) (operation : String) :
    Meets (conduct sha256 config) (changeDirectoryOuter path operation) history
      fun _ history' => Adds [⟨.chdir path, true⟩] history history' := by
  refine meets_bind (meets_check _ _) ?_
  rintro _ _ ⟨rfl, -⟩
  exact meets_must (.chdir path) (fun reply => reply) _ true rfl rfl (fun _ _ => nofun) fun _ h => h

theorem credential_meets (request : CredentialCall) :
    Meets (conduct sha256 config) (credential request) history
      fun _ history' => Adds [⟨.credential request, true⟩] history history' :=
  meets_must (.credential request) (fun reply => reply) _ true rfl rfl (fun _ _ => nofun) fun _ h => h

/-- The answer of a call that only looks at files is on record. -/
theorem meets_look (o : Syscall) (hchanged : o.changed = none)
    (hexec : ∀ program arguments, o ≠ .exec program arguments) :
    Meets (conduct sha256 config) (syscall o) history fun reply history' =>
      history' = history ++ [⟨o, reply⟩] := by
  refine ⟨⟨fun path hpath => ?_, fun program arguments heq => absurd heq (hexec program arguments)⟩,
    fun reply => rfl⟩
  rw [hchanged] at hpath
  cases hpath

theorem canonicalize_first (path : Bytes) (operation : String) :
    Meets (conduct sha256 config) (canonicalize path operation) history fun canonical history' =>
      history' = history ++ [resolved path canonical] := by
  refine meets_bind (meets_look (.canonicalize path) rfl fun _ _ => nofun) ?_
  rintro reply _ rfl
  refine meets_post (meets_orRefuse _ _) ?_
  rintro canonical _ ⟨rfl, hreply⟩
  cases reply with
  | error kind => cases hreply
  | ok found => rw [← Option.some.inj hreply]; rfl

theorem canonicalize_meets (path : Bytes) (operation : String) :
    Meets (conduct sha256 config) (canonicalize path operation) history fun canonical history' =>
      Adds [] history history' ∧ resolved path canonical ∈ history' := by
  refine meets_post (canonicalize_first path operation) ?_
  rintro canonical _ rfl
  exact ⟨adds_quiet (by simp [resolved, Syscall.effective]),
    List.mem_append_right _ List.mem_cons_self⟩

theorem symlinkMetadata_meets (path : Bytes) (operation : String) :
    Meets (conduct sha256 config) (symlinkMetadata path operation) history fun found history' =>
      history' = history ++ [⟨.symlinkMetadata path, .ok found⟩] := by
  refine meets_bind (meets_look (.symlinkMetadata path) rfl fun _ _ => nofun) ?_
  rintro reply _ rfl
  refine meets_post (meets_orRefuse _ _) ?_
  rintro found _ ⟨rfl, hreply⟩
  cases reply with
  | error kind => cases hreply
  | ok there => rw [← Option.some.inj hreply]

theorem readLink_meets (path : Bytes) :
    Meets (conduct sha256 config) (syscall (.readLink path)) history fun reply history' =>
      history' = history ++ [⟨.readLink path, reply⟩] :=
  meets_look (.readLink path) rfl fun _ _ => nofun

theorem ids_meets (identity : UserIdentity) :
    Meets (conduct sha256 config) (syscall .ids >>= fun reply => check
      (reply.1 = identity.uid && reply.2.1 = identity.uid && reply.2.2.1 = identity.gid &&
        reply.2.2.2 = identity.gid) (.operation (lit "identity_verification_failed") none)) history
      fun _ history' =>
        Adds [⟨.ids, (identity.uid, identity.uid, identity.gid, identity.gid)⟩] history history' := by
  refine meets_must .ids (fun reply => reply.1 = identity.uid && reply.2.1 = identity.uid &&
    reply.2.2.1 = identity.gid && reply.2.2.2 = identity.gid) _ _ rfl rfl (fun _ _ => nofun) ?_
  rintro ⟨uid, euid, gid, egid⟩ haccepted
  simp only [Bool.and_eq_true, decide_eq_true_eq] at haccepted
  obtain ⟨⟨⟨rfl, rfl⟩, rfl⟩, rfl⟩ := haccepted
  rfl

theorem applyIdentity_meets (identity : UserIdentity) :
    Meets (conduct sha256 config) (applyIdentity identity) history
      fun _ history' => Adds identity.events history history' := by
  refine meets_post (meets_then (meets_onlyIf _ (credential_meets _)) fun _ _ =>
    meets_then (credential_meets _) fun _ _ => meets_then (credential_meets _) fun _ _ =>
    meets_then (credential_meets _) fun _ _ => meets_then (meets_onlyIf _
      (meets_then (credential_meets _) fun _ _ => credential_meets _)) fun _ _ =>
        ids_meets identity) fun _ history' hadds => ?_
  simpa [UserIdentity.events] using hadds

/-! ### With the overlay in place -/

section Overlay

variable {lower : Bytes}

theorem base_ne_nil (config : Config) : config.base ≠ [] := by
  unfold Config.base
  split
  · decide
  · decide

/-- The overlay and the rootfs image lie apart. -/
structure Opened (config : Config) (lower : Bytes) (history : List Event) : Prop where
  left : effective history ≠ []
  known : [resolved config.rootfs lower] <+: history
  apart : (startsWith config.base lower || startsWith lower config.base) = false

theorem Opened.grows {history' : List Event} (h : Opened config lower history)
    (hgrown : history <+: history') : Opened config lower history' := by
  refine ⟨fun hnone => h.left ?_, h.known.trans hgrown, h.apart⟩
  have hstill : effective history <+: effective history' := hgrown.filter _
  rw [hnone] at hstill
  exact List.prefix_nil.mp hstill

theorem Opened.adds {events history' : List Event} (h : Opened config lower history)
    (hadds : Adds events history history') : Opened config lower history' :=
  h.grows hadds.grown

theorem Opened.confined {path : Bytes} (h : Opened config lower history)
    (hpath : Beneath config.base path) : Confined config history path := by
  unfold Confined
  rw [if_neg h.left]
  exact Or.inr ⟨hpath, lower, h.known, not_startsWith_of_beneath (base_ne_nil config) h.apart hpath⟩

theorem bindFileReadonly_meets (source target : Bytes) :
    Meets (conduct sha256 config) (bindFileReadonly source target) history
      fun _ history' => Adds (boundReadonly source target) history history' :=
  meets_then (mountRaw_meets _ _ _ _ _ _) fun _ _ => mountRaw_meets _ _ _ _ _ _

theorem applyMount_meets (operation : MountOperation)
    (h : ∀ target resolvConf hosts, operation = .dnsFiles target resolvConf hosts →
      Opened config lower history ∧ Beneath config.base target) :
    Meets (conduct sha256 config) (applyMount operation) history
      fun _ history' => Adds operation.events history history' := by
  cases operation with
  | proc target => exact mountRaw_meets _ _ _ _ _ _
  | tmpfs target mode => exact mountRaw_meets _ _ _ _ _ _
  | bind prepared =>
    refine meets_post (meets_then (mountRaw_meets _ _ _ _ _ _) fun _ _ =>
      meets_onlyIf _ (mountRaw_meets _ _ _ _ _ _)) fun _ history' hadds => ?_
    exact hadds
  | dnsFiles target resolvConf hosts =>
    obtain ⟨hopened, htarget⟩ := h target resolvConf hosts rfl
    have hfile : ∀ (name : Bytes) (history' : List Event), ProperName name →
        Opened config lower history' → Meets (conduct sha256 config)
          (ensureRegularMountTarget (push target name)) history'
            fun _ history'' => Adds [] history' history'' := by
      intro name history' hname hopened'
      have hpath := htarget.trans (beneath_name target hname)
      refine meets_post (meets_files (ensureRegularMountTarget_asks
        (show Beneath config.base (push target name) from hpath))
        fun path hpath => hopened'.confined hpath) fun _ _ hadds => hadds.1
    refine meets_post (meets_then (hfile (lit "resolv.conf") _ (by decide) hopened) fun _ hfirst =>
      meets_then (hfile (lit "hosts") _ (by decide) (hopened.adds hfirst)) fun _ _ =>
        meets_then (bindFileReadonly_meets _ _) fun _ _ => bindFileReadonly_meets _ _)
          fun _ history' hadds => hadds

theorem enterRootfs_meets (rootfs : Bytes) :
    Meets (conduct sha256 config) (enterRootfs rootfs) history fun _ history' =>
      Adds [⟨.chdir rootfs, true⟩, ⟨.pivotRoot, true⟩, ⟨.detach, true⟩, ⟨.chdir (lit "/"), true⟩]
        history history' := by
  refine meets_then (changeDirectoryOuter_meets rootfs _) fun _ _ => ?_
  refine meets_then (meets_must .pivotRoot (fun reply => reply) (failed "pivot_root_failed" rootfs)
    true rfl rfl (fun _ _ => nofun) fun _ h => h) fun _ _ => ?_
  refine meets_then (meets_must .detach (fun reply => reply)
    (.operation (lit "old_root_unmount_failed") none) true rfl rfl (fun _ _ => nofun)
      fun _ h => h) fun _ _ => ?_
  exact changeDirectoryOuter_meets _ _

/-! ### Where the paths lead -/

/-- What the inner loop of `resolve_target` has come to: the end of the path, or a link that leads
on from there. -/
def Walked (rootfs : Bytes) (history : List Event) (above : Position) (path : List Bytes) :
    Option (Bytes × Bytes × List Bytes) → Prop
  | none => Resolves rootfs history above path (above ++ path)
  | some (place, innerParent, rest) => ∃ parent name, place = physical rootfs (parent ++ [name]) ∧
      innerParent = logical parent ∧
      (∃ found : Metadata, found.fileType = .symlink ∧
        (⟨.symlinkMetadata place, .ok found⟩ : Event) ∈ history) ∧
      ∀ later position, history <+: later → Resolves rootfs later parent (name :: rest) position →
        Resolves rootfs later above path position

theorem findLink_meets (rootfs : Bytes) (above : Position) (path : List Bytes) :
    Meets (conduct sha256 config) (findLink (physical rootfs above) (logical above) path) history
      fun found history' => Adds [] history history' ∧
        Walked rootfs history' above path found := by
  induction path generalizing above history with
  | nil =>
    refine ⟨adds_refl history, ?_⟩
    rw [Walked, List.append_nil]
    exact .here
  | cons name rest ih =>
    have hplace : push (physical rootfs above) name = physical rootfs (above ++ [name]) :=
      physical_snoc above name
    have hinner : push (logical above) name = logical (above ++ [name]) := physical_snoc above name
    refine meets_bind (symlinkMetadata_meets _ _) ?_
    rintro found _ rfl
    have hadds : Adds [] history (history ++
        [⟨.symlinkMetadata (push (physical rootfs above) name), .ok found⟩]) :=
      adds_quiet (by simp [Syscall.effective])
    have hmem := List.mem_append_right history (List.mem_singleton_self
      (⟨.symlinkMetadata (push (physical rootfs above) name), .ok found⟩ : Event))
    split
    · next hlink =>
      exact ⟨hadds, above, name, hplace, rfl, ⟨found, hlink, hmem⟩,
        fun _ _ _ hresolves => hresolves⟩
    · next hplain =>
      have hat : PlainAt (history ++ [⟨.symlinkMetadata (push (physical rootfs above) name),
          .ok found⟩]) (physical rootfs (above ++ [name])) := hplace ▸ ⟨found, hplain, hmem⟩
      rw [hplace, hinner] at *
      refine meets_post (ih (above ++ [name])) ?_
      rintro walked history' ⟨hmore, hwalked⟩
      refine ⟨hadds.trans hmore, ?_⟩
      match walked with
      | none =>
        have hrest : Resolves rootfs history' (above ++ [name]) rest (above ++ [name] ++ rest) :=
          hwalked
        rw [List.append_assoc] at hrest
        exact .plain (hat.grows hmore.grown) hrest
      | some (place, innerParent, names) =>
        obtain ⟨parent, link, hat', hparent, hfound, hon⟩ := hwalked
        refine ⟨parent, link, hat', hparent, hfound, fun later position hlater hresolves => ?_⟩
        exact .plain (hat.grows (hmore.grown.trans hlater)) (hon later position hlater hresolves)

theorem resolveFrom_meets (rootfs target : Bytes) (left : ℕ) (path : Bytes) :
    Meets (conduct sha256 config) (resolveFrom rootfs target left path) history
      fun result history' => Adds [] history history' ∧
        ∃ position, Resolves rootfs history' [] (names path) position ∧
          result = physical rootfs position := by
  induction left generalizing path history with
  | zero =>
    unfold resolveFrom
    refine meets_bind (findLink_meets rootfs [] (names path)) ?_
    rintro found history₁ ⟨h₁, hwalked⟩
    cases found with
    | none => exact ⟨h₁, names path, hwalked, rfl⟩
    | some found => trivial
  | succ left ih =>
    unfold resolveFrom
    refine meets_bind (findLink_meets rootfs [] (names path)) ?_
    rintro found history₁ ⟨h₁, hwalked⟩
    cases found with
    | none => exact ⟨h₁, names path, hwalked, rfl⟩
    | some found =>
      obtain ⟨place, innerParent, rest⟩ := found
      obtain ⟨parent, name, rfl, rfl, ⟨found, htype, hmem⟩, hon⟩ := hwalked
      refine meets_bind (readLink_meets _) ?_
      rintro reply _ rfl
      refine meets_bind (meets_orRefuse _ _) ?_
      rintro link _ ⟨rfl, rfl⟩
      refine meets_bind (meets_orRefuse _ _) ?_
      rintro next _ ⟨rfl, hnext⟩
      have hread : Adds [] history₁ (history₁ ++
          [⟨.readLink (physical rootfs (parent ++ [name])), some link⟩]) :=
        adds_quiet (by simp [Syscall.effective])
      refine meets_post (ih next) ?_
      rintro result history' ⟨hmore, position, hresolves, hresult⟩
      have hgrown := hread.grown.trans hmore.grown
      have hlink : LinkAt history' (physical rootfs (parent ++ [name])) link :=
        ⟨found, htype, hgrown.subset hmem,
          hmore.grown.subset (List.mem_append_right _ List.mem_cons_self)⟩
      exact ⟨(h₁.trans hread).trans hmore, position,
        hon history' position hgrown (.link hlink hnext hresolves), hresult⟩

theorem resolveTarget_meets (rootfs target : Bytes) :
    Meets (conduct sha256 config) (resolveTarget rootfs target) history fun path history' =>
      Adds [] history history' ∧ Located rootfs history' target path := by
  refine meets_bind (meets_orRefuse _ _) ?_
  rintro start _ ⟨rfl, hstart⟩
  refine meets_post (resolveFrom_meets rootfs target 40 start) ?_
  rintro path history' ⟨hadds, position, hresolves, hpath⟩
  exact ⟨hadds, start, position, hstart, hresolves, hpath⟩

theorem resolveDirectory_meets (rootfs target : Bytes) :
    Meets (conduct sha256 config) (resolveDirectory rootfs target) history fun path history' =>
      Adds [] history history' ∧ Located rootfs history' target path := by
  refine meets_bind (resolveTarget_meets rootfs target) fun path history₁ h₁ => ?_
  refine meets_bind (meets_looks (metadata_asks path _)) fun found history₂ h₂ => ?_
  refine meets_bind (meets_check _ _) ?_
  rintro _ _ ⟨rfl, -⟩
  exact ⟨h₁.1.trans h₂.1, h₁.2.grows h₂.1.grown⟩

/-! ### What is prepared -/

theorem prepareBindWithRecursion_meets (rootfs : Bytes) (bind : Bind) (recursive : Bool) :
    Meets (conduct sha256 config) (prepareBindWithRecursion rootfs bind recursive) history
      fun prepared history' => Adds [] history history' ∧
        BindOf rootfs recursive history' bind prepared := by
  refine meets_bind (canonicalize_meets _ _) fun source history₁ hsource => ?_
  refine meets_bind (resolveTarget_meets rootfs bind.target) fun target history₂ htarget => ?_
  refine meets_bind (meets_looks (metadata_asks source _)) fun found history₃ hfound => ?_
  refine meets_bind (meets_looks (metadata_asks target _)) fun there history₄ hthere => ?_
  refine meets_bind (meets_check _ _) ?_
  rintro _ _ ⟨rfl, -⟩
  have h₄ := hfound.1.trans hthere.1
  have hlater := htarget.1.trans h₄
  refine ⟨hsource.1.trans hlater, hlater.grown.subset hsource.2, htarget.2.grows h₄.grown, rfl,
    fun h => ?_⟩
  exact (Bool.and_eq_true_iff.mp h).1

theorem prepareRegularSource_meets (path : Bytes) :
    Meets (conduct sha256 config) (prepareRegularSource path) history fun source history' =>
      Adds [] history history' ∧ resolved path source ∈ history' := by
  refine meets_bind (canonicalize_meets _ _) fun source history₁ hsource => ?_
  refine meets_bind (meets_looks (metadata_asks source _)) fun found history₂ hfound => ?_
  refine meets_bind (meets_check _ _) ?_
  rintro _ _ ⟨rfl, -⟩
  exact ⟨hsource.1.trans hfound.1, hfound.1.grown.subset hsource.2⟩

theorem prepareStandardMounts_meets (rootfs : Bytes) (standardMounts : Bool) :
    Meets (conduct sha256 config) (prepareStandardMounts rootfs standardMounts) history
      fun operations history' => Adds [] history history' ∧
        StandardFor rootfs history' operations standardMounts := by
  cases standardMounts with
  | false => exact ⟨adds_refl history, rfl⟩
  | true =>
    refine meets_bind (resolveDirectory_meets rootfs _) fun proc history₁ hproc => ?_
    refine meets_bind (prepareBindWithRecursion_meets rootfs _ true) fun dev history₂ hdev => ?_
    refine meets_bind (prepareBindWithRecursion_meets rootfs _ false) fun sys history₃ hsys => ?_
    refine meets_bind (prepareBindWithRecursion_meets rootfs _ true)
      fun cgroup history₄ hcgroup => ?_
    refine meets_bind (resolveDirectory_meets rootfs _) fun tmp history₅ htmp => ?_
    refine meets_bind (resolveDirectory_meets rootfs _) fun run history₆ hrun => ?_
    refine meets_bind (resolveDirectory_meets rootfs _) fun etc history₇ hetc => ?_
    refine meets_bind (prepareRegularSource_meets _) fun resolvConf history₈ hresolvConf => ?_
    refine meets_bind (prepareRegularSource_meets _) fun hosts history₉ hhosts => ?_
    have h₈ := hhosts.1
    have h₇ := hresolvConf.1.trans h₈
    have h₆ := hetc.1.trans h₇
    have h₅ := hrun.1.trans h₆
    have h₄ := htmp.1.trans h₅
    have h₃ := hcgroup.1.trans h₄
    have h₂ := hsys.1.trans h₃
    have h₁ := hdev.1.trans h₂
    refine ⟨hproc.1.trans h₁, proc, dev, sys, cgroup, tmp, run, etc, resolvConf, hosts,
      ⟨hproc.2.grows h₁.grown, hdev.2.grows h₂.grown, hsys.2.grows h₃.grown,
        hcgroup.2.grows h₄.grown, htmp.2.grows h₅.grown, hrun.2.grows h₆.grown,
        hetc.2.grows h₇.grown, h₈.grown.subset hresolvConf.2, hhosts.2⟩, rfl⟩

/-- One bind after another. -/
theorem meets_mapEach_binds {β : Type} {rootfs : Bytes} {bindOf : β → Bind}
    {body : β → Linux PreparedBind} {xs : List β} (hopened : Opened config lower history)
    (h : ∀ x ∈ xs, ∀ history', Opened config lower history' →
      Meets (conduct sha256 config) (body x) history' fun prepared history'' =>
        Adds [] history' history'' ∧ BindOf rootfs false history'' (bindOf x) prepared) :
    Meets (conduct sha256 config) (Thread.mapEach body xs) history fun binds history' =>
      Adds [] history history' ∧
        List.Forall₂ (fun x => BindOf rootfs false history' (bindOf x)) xs binds :=
  meets_mapEach adds_refl (fun _ _ _ hfirst hsecond => hfirst.trans hsecond)
    (fun _ _ _ _ hadds hbind => hbind.grows hadds.grown) fun x hx history' hadds =>
      h x hx history' (hopened.adds hadds)

theorem prepareMounts_meets (rootfs : Bytes) (hopened : Opened config lower history) :
    Meets (conduct sha256 config) (prepareMounts rootfs config) history
      fun operations history' => Adds [] history history' ∧ ∃ standard binds tmpfs,
        operations = standard ++ binds.map .bind ++ (tmpfs.map fun target => .tmpfs target 0o755) ∧
        StandardFor rootfs history' standard config.standardMounts ∧
        List.Forall₂ (BindOf rootfs false history') config.binds binds ∧
        List.Forall₂ (Located rootfs history') config.tmpfs tmpfs := by
  refine meets_bind (prepareStandardMounts_meets rootfs _) fun standard history₁ hstandard => ?_
  refine meets_bind (meets_mapEach_binds (hopened.adds hstandard.1) fun bind _ _ _ =>
    prepareBindWithRecursion_meets rootfs bind false) fun binds history₂ hbinds => ?_
  refine meets_bind (meets_mapEach adds_refl (fun _ _ _ hfirst hsecond => hfirst.trans hsecond)
    (fun _ _ _ _ hadds htarget => htarget.grows hadds.grown) fun target _ _ _ =>
      resolveDirectory_meets rootfs target) fun tmpfs history₃ htmpfs => ?_
  have hlater := hbinds.1.trans htmpfs.1
  exact ⟨hstandard.1.trans hlater, standard, binds, tmpfs, rfl, hstandard.2.grows hlater.grown,
    hbinds.2.imp fun _ _ hbind => hbind.grows htmpfs.1.grown, htmpfs.2⟩

theorem prepareDiskBind_meets {rootfs : Bytes} (hrootfs : Beneath config.base rootfs)
    (overlayId target : Bytes) (hopened : Opened config lower history) :
    Meets (conduct sha256 config) (prepareDiskBind sha256 rootfs lower
      (push config.base (lit "disk-mounts")) overlayId target) history
      fun prepared history' => Adds [] history history' ∧
        BindOf rootfs false history' (diskBind sha256 config.base lower overlayId target)
          prepared := by
  have hbase : ProperName (lit "disk-mounts") := by decide
  have hsource : Beneath config.base (push (push config.base (lit "disk-mounts"))
      (hexLower (sha256 (diskMountIdentity overlayId lower target)))) :=
    (beneath_name config.base hbase).trans (beneath_entry _ (entry_hexLower _))
  refine meets_bind (meets_files (ensurePrivateDirectory_asks hsource _)
    fun path hpath => hopened.confined hpath) fun _ history₁ hmade => ?_
  refine meets_bind (meets_files (ensureBindTarget_asks (fun path hpath => hrootfs.trans hpath) _)
    fun path hpath => (hopened.adds hmade.1).confined hpath) fun _ history₂ hensured => ?_
  refine meets_post (prepareBindWithRecursion_meets rootfs _ false) ?_
  rintro prepared history' ⟨hadds, hbind⟩
  exact ⟨(hmade.1.trans hensured.1).trans hadds, hbind⟩

theorem prepareDiskBinds_meets {rootfs : Bytes} (hrootfs : Beneath config.base rootfs)
    (hopened : Opened config lower history) :
    Meets (conduct sha256 config) (prepareDiskBinds sha256 rootfs lower config.base config.overlayId
      config.diskMounts) history fun disk history' => Adds [] history history' ∧
        (config.diskMounts = [] ∧ disk = [] ∨ ∃ overlayId, config.overlayId = some overlayId ∧
          List.Forall₂ (fun target => BindOf rootfs false history'
            (diskBind sha256 config.base lower overlayId target)) config.diskMounts disk) := by
  unfold prepareDiskBinds
  split
  · exact ⟨adds_refl history, Or.inl ⟨by assumption, rfl⟩⟩
  · refine meets_bind (meets_expect _) ?_
    rintro overlayId _ ⟨rfl, hid⟩
    have hbase : ProperName (lit "disk-mounts") := by decide
    refine meets_bind (meets_files (ensurePrivateDirectory_asks
      (show Beneath config.base (push config.base (lit "disk-mounts")) from
        beneath_name config.base hbase) _) fun path hpath => hopened.confined hpath)
      fun _ history₁ hmade => ?_
    refine meets_post (meets_mapEach_binds (hopened.adds hmade.1) fun target _ history' hlater =>
      prepareDiskBind_meets hrootfs overlayId target hlater) ?_
    rintro disk history' ⟨hadds, hdisk⟩
    exact ⟨hmade.1.trans hadds, Or.inr ⟨overlayId, hid, hdisk⟩⟩

end Overlay

/-! ### The run -/

theorem prepareOverlayBase_meets (hleft : effective history ≠ []) :
    Meets (conduct sha256 config) (prepareOverlayBase config.overlayDevice) history
      fun base history' => base = config.base ∧ ∃ device,
        DeviceOf history' config.overlayDevice device ∧
          Adds (deviceMounted device) history history' := by
  cases hdevice : config.overlayDevice with
  | none =>
    refine ⟨?_, none, rfl, adds_refl history⟩
    rw [Config.base, hdevice]
  | some configured =>
    have hbase : config.base = push overlayDeviceMount overlayDeviceNamespace := by
      rw [Config.base, hdevice]
    have hdirectories : config.deviceDirectories = [overlayDeviceMount, config.base] := by
      rw [Config.deviceDirectories, hdevice]
    have harea : ∀ history', effective history' ≠ [] → ∀ path, path ∈ config.deviceDirectories →
        Confined config history' path := by
      intro history' hleft' path hpath
      unfold Confined
      rw [if_neg hleft']
      exact Or.inl hpath
    refine meets_bind (canonicalize_meets _ _) fun device history₁ hknown => ?_
    refine meets_bind (meets_looks (metadata_asks device _)) fun found history₂ hfound => ?_
    refine meets_bind (meets_check _ _) ?_
    rintro _ _ ⟨rfl, -⟩
    have h₂ := hknown.1.trans hfound.1
    have hstill : ∀ {events history' : List Event}, Adds events history history' →
        effective history' ≠ [] := by
      intro events history' hadds
      rw [hadds.effective]
      exact List.append_ne_nil_of_left_ne_nil hleft _
    refine meets_bind (meets_files (ensurePrivateDirectory_asks
      (show overlayDeviceMount ∈ config.deviceDirectories by simp [hdirectories]) _)
        (harea _ (hstill h₂))) fun _ history₃ hmade => ?_
    have h₃ := h₂.trans hmade.1
    refine meets_bind (mountRaw_meets _ _ _ _ _ _) fun _ history₄ hmounted => ?_
    have h₄ := h₃.trans hmounted
    refine meets_bind (meets_files (ensurePrivateDirectory_asks
      (show push overlayDeviceMount overlayDeviceNamespace ∈ config.deviceDirectories by
        simp [hdirectories, hbase]) _) (harea _ (hstill h₄))) fun _ history₅ hnamespace => ?_
    refine ⟨hbase.symm, some device, ⟨device, rfl, ?_⟩, h₄.trans hnamespace.1⟩
    exact (((hfound.1.trans hmade.1).trans hmounted).trans hnamespace.1).grown.subset hknown.2

theorem mountOverlayRootfs_meets {lower : Bytes} (hleft : effective history ≠ [])
    (hknown : [resolved config.rootfs lower] <+: history) :
    Meets (conduct sha256 config) (mountOverlayRootfs sha256 lower config.base config.overlayId)
      history fun merged history' => Opened config lower history' ∧ ∃ layers,
        merged = layers.merged ∧ LayersOf sha256 config.base lower layers config.overlayId ∧
          Adds [overlayMounted lower layers] history history' := by
  refine meets_bind (meets_check _ _) ?_
  rintro _ history₀ ⟨rfl, hapart⟩
  have hopened : Opened config lower history₀ := ⟨hleft, hknown, by simpa using hapart⟩
  refine meets_bind (meets_files (ensurePrivateDirectory_asks (beneath_refl config.base) _)
    fun path hpath => hopened.confined hpath) fun _ history₁ hmade => ?_
  have hopened₁ := hopened.adds hmade.1
  refine meets_bind (meets_files (overlayPaths_asks sha256 lower config.overlayId
    fun path hpath => hpath) fun path hpath => hopened₁.confined hpath) fun layers history₂ hlayers => ?_
  have hopened₂ := hopened₁.adds hlayers.1
  refine meets_bind (meets_files (ensureOverlayUpperDirectory_asks (beneath_layers hlayers.2).1 lower)
    fun path hpath => hopened₂.confined hpath) fun _ history₃ hupper => ?_
  refine meets_bind (mountRaw_meets _ _ _ _ _ _) fun _ history₄ hmounted => ?_
  exact ⟨(hopened₂.adds hupper.1).adds hmounted, layers, rfl, hlayers.2,
    ((hmade.1.trans hlayers.1).trans hupper.1).trans hmounted⟩

/-- What is known when the mounts on the rootfs begin. -/
structure Prepared (sha256 : Bytes → Bytes) (config : Config) (lower : Bytes)
    (history history' : List Event) (rootfs : Bytes) (operations : List MountOperation)
    (device : Option Bytes) (layers : LayerPaths) : Prop where
  rootfs : rootfs = layers.merged
  opened : Opened config lower history'
  deviceOf : DeviceOf history' config.overlayDevice device
  layersOf : LayersOf sha256 config.base lower layers config.overlayId
  operationsOf : OperationsOf sha256 config lower layers.merged history' operations
  adds : Adds (deviceMounted device ++ [overlayMounted lower layers]) history history'

theorem prepare_meets {lower : Bytes} (hleft : effective history ≠ [])
    (hknown : [resolved config.rootfs lower] <+: history) :
    Meets (conduct sha256 config) (prepare sha256 config lower) history fun result history' =>
      ∃ device layers, Prepared sha256 config lower history history' result.1 result.2 device
        layers := by
  refine meets_bind (prepareOverlayBase_meets hleft) ?_
  rintro _ history₁ ⟨rfl, device, hdevice, h₁⟩
  have hleft₁ : effective history₁ ≠ [] := by
    rw [h₁.effective]
    exact List.append_ne_nil_of_left_ne_nil hleft _
  refine meets_bind (mountOverlayRootfs_meets hleft₁ (hknown.trans h₁.grown)) ?_
  rintro _ history₂ ⟨hopened, layers, rfl, hlayers, h₂⟩
  have hmerged := (beneath_layers hlayers).2
  have hbelow : ∀ path, Beneath layers.merged path → Beneath config.base path :=
    fun path hpath => hmerged.trans hpath
  have htarget : ∀ (bind : Bind) (history' : List Event), Opened config lower history' →
      Meets (conduct sha256 config) (ensureBindTarget layers.merged bind) history'
        fun _ history'' => Adds [] history' history'' ∧ True := fun bind history' hopened' =>
    meets_files (ensureBindTarget_asks hbelow bind) fun path hpath => hopened'.confined hpath
  refine meets_bind (meets_files (asks_each fun bind _ => ensureBindTarget_asks hbelow bind)
    fun path hpath => hopened.confined hpath) fun _ history₃ h₃ => ?_
  have hopened₃ := hopened.adds h₃.1
  refine meets_bind (meets_onlyIf _ (meets_post (htarget hostCgroupBind history₃ hopened₃)
    fun _ _ h => h.1)) fun _ history₄ hcgroup => ?_
  have h₄ : Adds [] history₃ history₄ := by simpa using hcgroup
  have hopened₄ := hopened₃.adds h₄
  refine meets_bind (prepareDiskBinds_meets hmerged hopened₄) fun disk history₅ hdisk => ?_
  refine meets_bind (meets_looks (prepareWorkdir_asks _ _)) fun _ history₆ h₆ => ?_
  refine meets_bind (meets_expect _) ?_
  rintro executable _ ⟨rfl, -⟩
  refine meets_bind (meets_looks (prepareExecutable_asks _ _)) fun _ history₇ h₇ => ?_
  refine meets_bind (meets_looks (validateResolvedMountTargets_asks _ config)) fun _ history₈ h₈ => ?_
  have h₅₈ := (h₆.1.trans h₇.1).trans h₈.1
  have hopened₈ := (hopened₄.adds hdisk.1).adds h₅₈
  refine meets_bind (prepareMounts_meets layers.merged hopened₈) ?_
  rintro _ history₉ ⟨h₉, standard, binds, tmpfs, rfl, hstandard, hbinds, htmpfs⟩
  have h₂₉ := ((h₃.1.trans h₄).trans hdisk.1).trans (h₅₈.trans h₉)
  refine ⟨device, layers, rfl, hopened₈.adds h₉, ?_, hlayers, ⟨⟨standard, binds, tmpfs, disk, rfl,
    hstandard, hbinds, htmpfs, ?_⟩⟩, ?_⟩
  · exact hdevice.grows (h₂.trans h₂₉).grown
  · rcases hdisk.2 with hnone | ⟨overlayId, hid, hall⟩
    · exact Or.inl hnone
    · exact Or.inr ⟨overlayId, hid, hall.imp fun _ _ hbind => hbind.grows (h₅₈.trans h₉).grown⟩
  · simpa using (h₁.trans h₂).trans h₂₉

theorem beneath_dnsFiles {lower rootfs : Bytes} {operations : List MountOperation}
    (h : OperationsOf sha256 config lower rootfs history operations) {target resolvConf hosts : Bytes}
    (hmem : .dnsFiles target resolvConf hosts ∈ operations) : Beneath rootfs target := by
  obtain ⟨standard, binds, tmpfs, disk, rfl, hstandard, -⟩ := h.order
  simp only [List.mem_append, List.mem_map, reduceCtorEq, and_false, exists_false, or_false] at hmem
  cases hgiven : config.standardMounts with
  | false =>
    rw [hgiven] at hstandard
    obtain rfl : standard = [] := hstandard
    cases hmem
  | true =>
    rw [hgiven] at hstandard
    obtain ⟨proc, dev, sys, cgroup, tmp, run, etc, resolvConf', hosts', hof, rfl⟩ := hstandard
    simp only [standardOperations, List.mem_cons, reduceCtorEq, false_or, List.not_mem_nil,
      or_false, MountOperation.dnsFiles.injEq] at hmem
    obtain ⟨rfl, -, -⟩ := hmem
    exact hof.etc.beneath

/-- The end of a run, once the mounts are known. -/
theorem launch_meets {lower rootfs : Bytes} {before : List Event} {identity : Option UserIdentity}
    {operations : List MountOperation} {device : Option Bytes} {layers : LayerPaths}
    (hbefore : effective before = separated)
    (h : Prepared sha256 config lower before history rootfs operations device layers)
    (hidentity : IdentityOf lower history identity config.user) :
    Meets (conduct sha256 config) (launch config identity rootfs operations) history
      fun _ history' => Became sha256 config history' := by
  obtain rfl := h.rootfs
  have hmerged := (beneath_layers h.layersOf).2
  refine meets_bind (meets_each_adds fun operation hmem history' hgrown =>
    applyMount_meets operation fun target resolvConf hosts heq => ⟨h.opened.grows hgrown,
      hmerged.trans (beneath_dnsFiles h.operationsOf (heq ▸ hmem))⟩) fun _ history₁ h₁ => ?_
  refine meets_bind (enterRootfs_meets _) fun _ history₂ h₂ => ?_
  refine meets_bind (changeDirectoryOuter_meets _ _) fun _ history₃ h₃ => ?_
  refine meets_bind (meets_each_adds fun identity _ history' _ => applyIdentity_meets identity)
    fun _ history₄ h₄ => ?_
  refine meets_bind (meets_expect _) ?_
  rintro program history₅ ⟨rfl, hprogram⟩
  have hgrown := (((h₁.trans h₂).trans h₃).trans h₄).grown
  have hcommand : config.command = program :: config.command.tail := by
    cases hwords : config.command with
    | nil =>
      rw [hwords] at hprogram
      cases hprogram
    | cons word words =>
      rw [hwords] at hprogram
      rw [← Option.some.inj hprogram]
      rfl
  have hcomplete : Complete sha256 config history₅ program config.command.tail := by
    refine ⟨hcommand, ⟨lower, device, layers, operations, identity⟩,
      ⟨h.opened.known.trans hgrown, ?_, h.layersOf, h.operationsOf.grows hgrown,
        hidentity.grows hgrown⟩, ?_⟩
    · exact h.deviceOf.grows hgrown
    · rw [h₄.effective, h₃.effective, h₂.effective, h₁.effective, h.adds.effective, hbefore]
      simp [Plan.events]
  refine ⟨⟨nofun, fun program' arguments heq => ?_⟩, fun reply => ?_⟩
  · obtain ⟨rfl, rfl⟩ := Syscall.exec.inj heq
    exact hcomplete
  · refine meets_post (meets_check _ _) ?_
    rintro _ _ ⟨rfl, hreply⟩
    obtain rfl : reply = true := hreply
    exact ⟨history₅, program, config.command.tail, rfl, hcomplete⟩

theorem prepareRootfs_meets :
    Meets (conduct sha256 config) (prepareRootfs config.rootfs) [] fun lower history' =>
      Adds [] [] history' ∧ [resolved config.rootfs lower] <+: history' := by
  refine meets_bind (canonicalize_first _ _) ?_
  rintro lower _ rfl
  refine meets_bind (meets_looks (metadata_asks lower _)) fun found history' hfound => ?_
  refine meets_bind (meets_check _ _) ?_
  rintro _ history₁ ⟨rfl, -⟩
  have hfirst : Adds [] [] ([] ++ [resolved config.rootfs lower]) :=
    adds_quiet (by simp [resolved, Syscall.effective])
  exact ⟨hfirst.trans hfound.1, hfound.1.grown⟩

/-- The password file that the identity is taken from has been read. -/
theorem resolveUser_meets (lower user : Bytes) :
    Meets (conduct sha256 config) (resolveUser lower user) history fun identity history' =>
      Adds [] history history' ∧ ∃ passwd contents,
        Located lower history' (lit "/etc/passwd") passwd ∧
        (⟨.readFile passwd (maxPasswdBytes + 1), some contents⟩ : Event) ∈ history' ∧
        parsePasswd contents user = .ok identity := by
  refine meets_bind (resolveTarget_meets lower _) fun passwd history₁ h₁ => ?_
  refine meets_bind (meets_looks (metadata_asks passwd _)) fun found history₂ h₂ => ?_
  refine meets_bind (meets_check _ _) ?_
  rintro _ history₃ ⟨rfl, -⟩
  refine meets_bind (meets_check _ _) ?_
  rintro _ history₄ ⟨rfl, -⟩
  refine meets_bind (meets_look (.readFile passwd (maxPasswdBytes + 1)) rfl fun _ _ => nofun) ?_
  rintro reply _ rfl
  refine meets_bind (meets_orRefuse _ _) ?_
  rintro contents _ ⟨rfl, hreply⟩
  refine meets_bind (meets_check _ _) ?_
  rintro _ history₆ ⟨rfl, -⟩
  refine meets_bind (meets_check _ _) ?_
  rintro _ history₇ ⟨rfl, -⟩
  have hread : Adds [] history₄ (history₄ ++ [⟨.readFile passwd (maxPasswdBytes + 1), reply⟩]) :=
    adds_quiet (by simp [Syscall.effective])
  cases hparsed : parsePasswd contents user with
  | error e => trivial
  | ok identity =>
    refine ⟨(h₁.1.trans h₂.1).trans hread, passwd, contents,
      h₁.2.grows (h₂.1.trans hread).grown, ?_, hparsed⟩
    rw [hreply]
    exact List.mem_append_right _ List.mem_cons_self

theorem resolveIdentity_meets (lower : Bytes) (user : Option ProcessUser) :
    Meets (conduct sha256 config) (resolveIdentity lower user) history fun identity history' =>
      Adds [] history history' ∧ IdentityOf lower history' identity user := by
  match user with
  | none => exact ⟨adds_refl history, rfl⟩
  | some (.numeric uid gid) =>
    refine meets_bind (meets_check _ _) ?_
    rintro _ history' ⟨rfl, -⟩
    exact ⟨adds_refl history', rfl⟩
  | some (.named user) =>
    refine meets_bind (resolveUser_meets lower user) ?_
    rintro identity history' ⟨hadds, passwd, contents, hpasswd, hread, hparsed⟩
    exact ⟨hadds, passwd, contents, identity, hpasswd, hread, hparsed, rfl⟩

theorem run_meets (sha256 : Bytes → Bytes) (config : Config) :
    Meets (conduct sha256 config) (run sha256 config) []
      fun _ history' => Became sha256 config history' := by
  refine meets_bind prepareRootfs_meets fun lower history₁ h₁ => ?_
  refine meets_bind (resolveIdentity_meets lower _) fun identity history₂ h₂ => ?_
  have hnone : effective history₂ = [] := by rw [h₂.1.effective, h₁.1.effective]; rfl
  have harea : ∀ path, (∃ bind ∈ config.binds, Along bind.source path) →
      Confined config history₂ path := by
    intro path hpath
    unfold Confined
    rw [if_pos hnone]
    exact hpath
  refine meets_bind (meets_files (prepareBindSources_asks fun bind hbind path hpath =>
    ⟨bind, hbind, hpath⟩) harea) fun _ history₃ h₃ => ?_
  refine meets_bind (meets_must .unshare (fun reply => reply) _ true rfl rfl (fun _ _ => nofun)
    fun _ h => h) fun _ history₄ h₄ => ?_
  refine meets_bind (mountRaw_meets _ _ _ _ _ _) fun _ history₅ h₅ => ?_
  have hseparated : effective history₅ = separated := by
    rw [h₅.effective, h₄.effective, h₃.1.effective, hnone]
    rfl
  have hgrown := ((h₃.1.trans h₄).trans h₅).grown
  refine meets_bind (prepare_meets (by rw [hseparated]; simp [separated])
    ((h₁.2.trans h₂.1.grown).trans hgrown)) ?_
  rintro ⟨rootfs, operations⟩ history₆ ⟨device, layers, hprepared⟩
  exact launch_meets hseparated hprepared (h₂.2.grows (hgrown.trans hprepared.adds.grown))

/-- When `exec` is called, everything that the configuration asks for has been done. -/
theorem run_transcript {program : Bytes} {arguments : List Bytes}
    {next : Reply (.exec program arguments) → Linux Unit}
    (h : Course (run sha256 config) history (.op (.exec program arguments) next)) :
    Complete sha256 config history program arguments := by
  have hmeets := meets_course (run_meets sha256 config) h
  rw [conduct, Monitor.along_chronicle] at hmeets
  exact hmeets.1.2 program arguments rfl

/-- Directories, but for `sh`. -/
def agreeable : (o : Syscall) → Reply o
  | .canonicalize path => .ok path
  | .metadata path | .symlinkMetadata path =>
    .ok ⟨if fileName path = some (lit "sh") then .regular else .directory, 0, 0, 0, 0o755⟩
  | .readLink _ | .readFile .. | .read _ => none
  | .mkdir .. | .createNew .. => .created
  | .instant => (1, 1)
  | .ids => (0, 0, 0, 0)
  | .mkdirAll .. | .openLock .. | .flock | .inheritLock | .writeAll .. | .chown ..
  | .setPermissions .. | .removeFile _ | .unshare | .mount .. | .chdir _ | .pivotRoot | .detach
  | .credential _ | .exec .. => true

def shellConfig : Config :=
  { rootfs := lit "/srv/rootfs", overlayDevice := none, overlayId := none, workdir := lit "/",
    user := some (.numeric 0 0), standardMounts := false, diskMounts := [], binds := [],
    tmpfs := [lit "/tmp"], command := [lit "/bin/sh"] }

theorem run_transcript_shell :
    ∃ history, history.length = 35 ∧ Complete id shellConfig history (lit "/bin/sh") [] := by
  have hcourse := course_play agreeable 35 (run id shellConfig)
  have hasked : (play agreeable 35 (run id shellConfig)).2.asked =
      some (.exec (lit "/bin/sh") []) := by decide +kernel
  obtain ⟨next, hnext⟩ := eq_op_of_asked hasked
  rw [hnext] at hcourse
  exact ⟨_, by decide +kernel, run_transcript hcourse⟩

end Linux

end Sandcamp.Sandrun
