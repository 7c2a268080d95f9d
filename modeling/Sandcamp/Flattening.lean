import Sandcamp.Agreement
import Sandcamp.Handoff
import Sandcamp.Campd.Supervisor

/-!
# The launch list of an admitted declaration (runtime.rs:594-757)

`resolve_main_users` fills a map with what the snapshot of `/etc/passwd` gives each
named user; the loop keeps every entry it has and leaves none of the names it has
passed without one. So `from_main` always finds its name, and the lists keep the
declared order and fields. The other partial operations of a launch are excluded by
`validate`: a command has a first word, a job has a timeout.
-/

namespace Sandcamp.Flattening
open Foundations Sandcamp.Campd
open Handoff (buildCommand_total processes_wellFormed)

/-! ### The loop over the named users -/

def Named (process : MainProcess) (user : Bytes) : Prop := process.user = some (.named ⟨user⟩)

def Snapshot (contents : Bytes) (resolved : MainUsers) : Prop :=
  ∀ (user : Bytes) (id : NumericUser), resolved[user]? = some id →
    parseMainPasswd contents user = .ok id

def Covers (processes : List MainProcess) (resolved : MainUsers) : Prop :=
  ∀ process ∈ processes, ∀ user, Named process user → user ∈ resolved

theorem namesUser_iff (process : MainProcess) :
    namesUser process = true ↔ ∃ user, Named process user := by
  obtain ⟨common, user⟩ := process
  cases user with
  | none => simp [namesUser, Named]
  | some user =>
    cases user with
    | named user => exact iff_of_true rfl ⟨user.name, rfl⟩
    | numeric user => simp [namesUser, Named]

theorem resolveMainUser_of_unnamed (contents : Bytes) (resolved : MainUsers)
    (process : MainProcess) (h : ∀ user, ¬Named process user) :
    resolveMainUser contents resolved process = .ok resolved := by
  unfold resolveMainUser
  split
  · rename_i user huser
    exact absurd huser (h user.name)
  · rfl

/-- A round for a user: the map has a name already, or gets what the snapshot gives it. -/
theorem resolveMainUser_named (contents : Bytes) (resolved next : MainUsers)
    (process : MainProcess) (user : Bytes) (h : Named process user) :
    resolveMainUser contents resolved process = .ok next ↔
      (user ∈ resolved ∧ next = resolved) ∨
        (user ∉ resolved ∧ ∃ id, parseMainPasswd contents user = .ok id ∧
          next = resolved.insert user id) := by
  unfold Named at h
  unfold resolveMainUser
  rw [h]
  dsimp only
  by_cases hin : user ∈ resolved
  · rw [if_pos (Std.ExtTreeMap.contains_iff_mem.mpr hin)]
    simp [hin, eq_comm]
  · rw [if_neg (fun h => hin (Std.ExtTreeMap.contains_iff_mem.mp h))]
    simp only [bind_eq_ok, hin, false_and, not_false_eq_true, true_and, false_or,
      Except.ok.injEq, @eq_comm _ _ next]

theorem resolveMainUser_error (contents : Bytes) (resolved : MainUsers)
    (process : MainProcess) (error : RuntimeError)
    (h : resolveMainUser contents resolved process = .error error) :
    ∃ user, Named process user ∧ user ∉ resolved ∧ parseMainPasswd contents user = .error error := by
  by_cases hnamed : ∃ user, Named process user
  · obtain ⟨user, huser⟩ := hnamed
    have hone := fun next => resolveMainUser_named contents resolved next process user huser
    by_cases hin : user ∈ resolved
    · rw [(hone resolved).mpr (Or.inl ⟨hin, rfl⟩)] at h
      cases h
    · cases hparse : parseMainPasswd contents user with
      | ok id =>
        rw [(hone (resolved.insert user id)).mpr (Or.inr ⟨hin, id, hparse, rfl⟩)] at h
        cases h
      | error e =>
        refine ⟨user, huser, hin, ?_⟩
        unfold Named at huser
        unfold resolveMainUser at h
        rw [huser] at h
        dsimp only at h
        rw [if_neg (fun h => hin (Std.ExtTreeMap.contains_iff_mem.mp h)), hparse] at h
        exact hparse.trans (congrArg Except.error (Except.error.inj h))
  · rw [resolveMainUser_of_unnamed contents resolved process (fun user hu => hnamed ⟨user, hu⟩)] at h
    cases h

theorem snapshot_step (contents : Bytes) (resolved next : MainUsers) (process : MainProcess)
    (hstep : resolveMainUser contents resolved process = .ok next)
    (h : Snapshot contents resolved) :
    Snapshot contents next ∧ (∀ user, user ∈ resolved → user ∈ next) ∧
      ∀ user, Named process user → user ∈ next := by
  by_cases hnamed : ∃ user, Named process user
  · obtain ⟨user, huser⟩ := hnamed
    have hsame : ∀ other, Named process other → other = user := by
      intro other hother
      unfold Named at huser hother
      rw [huser] at hother
      simpa using hother.symm
    rcases (resolveMainUser_named contents resolved next process user huser).mp hstep with
      ⟨hin, rfl⟩ | ⟨hin, id, hparse, rfl⟩
    · exact ⟨h, fun _ hm => hm, fun other ho => hsame other ho ▸ hin⟩
    · refine ⟨?_, ?_, ?_⟩
      · intro other found hfound
        rw [Std.ExtTreeMap.getElem?_insert] at hfound
        by_cases heq : compare user other = .eq
        · rw [if_pos heq] at hfound
          obtain rfl := Option.some.inj hfound
          rw [← Std.LawfulEqOrd.eq_of_compare heq]
          exact hparse
        · rw [if_neg heq] at hfound
          exact h other found hfound
      · intro other hm
        exact Std.ExtTreeMap.mem_insert.mpr (Or.inr hm)
      · intro other ho
        rw [hsame other ho]
        exact Std.ExtTreeMap.mem_insert_self
  · rw [resolveMainUser_of_unnamed contents resolved process (fun user hu => hnamed ⟨user, hu⟩)]
      at hstep
    obtain rfl := Except.ok.inj hstep
    exact ⟨h, fun _ hm => hm, fun user hu => absurd ⟨user, hu⟩ hnamed⟩

/-- The whole loop: what it started with is kept, and every name it passed has an entry. -/
theorem snapshot_loop (contents : Bytes) (processes : List MainProcess)
    (resolved final : MainUsers) (h : Snapshot contents resolved)
    (hloop : processes.foldlM (resolveMainUser contents) resolved = .ok final) :
    Snapshot contents final ∧ (∀ user, user ∈ resolved → user ∈ final) ∧
      Covers processes final := by
  induction processes generalizing resolved with
  | nil =>
    obtain rfl := Except.ok.inj hloop
    exact ⟨h, fun _ hm => hm, fun _ hp => absurd hp List.not_mem_nil⟩
  | cons process rest ih =>
    obtain ⟨next, hstep, hrest⟩ := (foldlM_cons_eq_ok _ _ _ _ _).mp hloop
    obtain ⟨hnext, hkeep, hown⟩ := snapshot_step contents resolved next process hstep h
    obtain ⟨hfinal, hkept, hcovers⟩ := ih next hnext hrest
    refine ⟨hfinal, fun user hm => hkept user (hkeep user hm), ?_⟩
    intro other hp user hu
    rcases List.mem_cons.mp hp with rfl | hp
    · exact hkept user (hown user hu)
    · exact hcovers other hp user hu

/-- The loop stops at a name the snapshot has no identity for, and at nothing else. -/
theorem loop_fails (contents : Bytes) (processes : List MainProcess) (resolved : MainUsers)
    (h : Snapshot contents resolved) :
    (∃ error, processes.foldlM (resolveMainUser contents) resolved = .error error) ↔
      ∃ process ∈ processes, ∃ user error, Named process user ∧
        parseMainPasswd contents user = .error error := by
  constructor
  · induction processes generalizing resolved with
    | nil =>
      rintro ⟨error, herror⟩
      cases herror
    | cons process rest ih =>
      rintro ⟨error, herror⟩
      rw [List.foldlM_cons] at herror
      cases hstep : resolveMainUser contents resolved process with
      | error stop =>
        obtain ⟨user, huser, -, hparse⟩ := resolveMainUser_error contents resolved process stop hstep
        exact ⟨process, List.mem_cons_self, user, stop, huser, hparse⟩
      | ok next =>
        rw [hstep] at herror
        have hnext := (snapshot_step contents resolved next process hstep h).1
        obtain ⟨other, hm, hother⟩ := ih next hnext ⟨error, herror⟩
        exact ⟨other, List.mem_cons_of_mem _ hm, hother⟩
  · rintro ⟨process, hp, user, error, hnamed, hparse⟩
    cases hloop : processes.foldlM (resolveMainUser contents) resolved with
    | error stop => exact ⟨stop, rfl⟩
    | ok final =>
      obtain ⟨hfinal, -, hcovers⟩ := snapshot_loop contents processes resolved final h hloop
      have hin := hcovers process hp user hnamed
      have hget := Std.ExtTreeMap.getElem?_eq_some_getElem hin
      have hid := hfinal user _ hget
      rw [hparse] at hid
      cases hid

theorem snapshot_empty (contents : Bytes) : Snapshot contents ∅ := by
  intro user id h
  simp at h

/-! ### The users of all main processes -/

/-- Some main process names a user, and the file is unreadable or has no identity for it. -/
def Unresolvable (file : PasswdFile) (processes : List MainProcess) : Prop :=
  ∃ process ∈ processes, ∃ user, Named process user ∧
    ((∃ error, readMainPasswd file = .error error) ∨
      ∃ contents error, readMainPasswd file = .ok contents ∧
        parseMainPasswd contents user = .error error)

theorem any_namesUser (processes : List MainProcess) :
    processes.any namesUser = true ↔ ∃ process ∈ processes, ∃ user, Named process user := by
  simp only [List.any_eq_true, namesUser_iff]

theorem resolveMainUsers_fails (file : PasswdFile) (processes : List MainProcess) :
    (∃ error, resolveMainUsers file processes = .error error) ↔ Unresolvable file processes := by
  unfold resolveMainUsers
  by_cases hany : processes.any namesUser = true
  · rw [if_pos hany]
    cases hread : readMainPasswd file with
    | error stop =>
      obtain ⟨process, hp, user, hu⟩ := (any_namesUser processes).mp hany
      constructor
      · intro _
        exact ⟨process, hp, user, hu, Or.inl ⟨stop, hread⟩⟩
      · intro _
        exact ⟨stop, rfl⟩
    | ok contents =>
      have hloop := loop_fails contents processes ∅ (snapshot_empty contents)
      constructor
      · intro h
        obtain ⟨process, hp, user, error, hu, hparse⟩ := hloop.mp h
        exact ⟨process, hp, user, hu, Or.inr ⟨contents, error, hread, hparse⟩⟩
      · rintro ⟨process, hp, user, hu, ⟨error, herror⟩ | ⟨text, error, htext, hparse⟩⟩
        · rw [hread] at herror
          cases herror
        · rw [hread] at htext
          obtain rfl := Except.ok.inj htext
          exact hloop.mpr ⟨process, hp, user, error, hu, hparse⟩
  · rw [if_neg hany]
    constructor
    · rintro ⟨error, herror⟩
      cases herror
    · rintro ⟨process, hp, user, hu, -⟩
      exact absurd ((any_namesUser processes).mpr ⟨process, hp, user, hu⟩) hany

/-- A map that resolves the main processes comes from one snapshot, read if a name needs it. -/
theorem resolveMainUsers_ok (file : PasswdFile) (processes : List MainProcess)
    (resolved : MainUsers) (h : resolveMainUsers file processes = .ok resolved) :
    ∃ contents, ((∃ process ∈ processes, ∃ user, Named process user) →
        readMainPasswd file = .ok contents) ∧
      Snapshot contents resolved ∧ Covers processes resolved := by
  unfold resolveMainUsers at h
  by_cases hany : processes.any namesUser = true
  · rw [if_pos hany] at h
    obtain ⟨contents, hread, hloop⟩ := (bind_eq_ok _ _ _).mp h
    obtain ⟨hsnapshot, -, hcovers⟩ :=
      snapshot_loop contents processes ∅ resolved (snapshot_empty contents) hloop
    exact ⟨contents, fun _ => hread, hsnapshot, hcovers⟩
  · rw [if_neg hany] at h
    obtain rfl := Except.ok.inj h
    have hnone : ∀ process ∈ processes, ∀ user, ¬Named process user := fun process hp user hu =>
      hany ((any_namesUser processes).mpr ⟨process, hp, user, hu⟩)
    refine ⟨[], ?_, snapshot_empty [], fun process hp user hu => absurd hu (hnone process hp user)⟩
    rintro ⟨process, hp, user, hu⟩
    exact absurd hu (hnone process hp user)

/-! ### The launch list -/

structure LaunchesSidecar (declared : SidecarProcess) (process : LaunchProcess) : Prop where
  common : process.toCommonProcess = declared.toCommonProcess
  source : process.source = .sidecar declared.rootfs declared.overlayDevice
    declared.standardMounts declared.diskMounts declared.binds declared.user

/-- The identity a main process starts with, under a content of `/etc/passwd`. -/
def ResolvesUser (contents : Bytes) : Option ProcessUser → Option NumericUser → Prop
  | none, id => id = none
  | some (.numeric user), id => id = some user
  | some (.named user), id => ∃ found, parseMainPasswd contents user.name = .ok found ∧
      id = some found

structure LaunchesMain (contents : Bytes) (declared : MainProcess) (process : LaunchProcess) :
    Prop where
  common : process.toCommonProcess = declared.toCommonProcess
  source : ∃ id, process.source = .main id ∧ ResolvesUser contents declared.user id

theorem fromMain_launches (contents : Bytes) (resolved : MainUsers) (declared : MainProcess)
    (hsnapshot : Snapshot contents resolved)
    (hin : ∀ user, Named declared user → user ∈ resolved) :
    ∃ process, fromMain resolved declared = .ok process ∧ LaunchesMain contents declared process := by
  obtain ⟨common, user⟩ := declared
  cases user with
  | none => exact ⟨_, rfl, rfl, none, rfl, rfl⟩
  | some user =>
    cases user with
    | numeric id => exact ⟨_, rfl, rfl, some id, rfl, rfl⟩
    | named user =>
      have hget := Std.ExtTreeMap.getElem?_eq_some_getElem (hin user.name rfl)
      have hid := hsnapshot user.name _ hget
      refine ⟨⟨common, .main (some _)⟩, ?_, rfl, ⟨_, rfl, ⟨_, hid, rfl⟩⟩⟩
      simp only [fromMain, hget]
      rfl

theorem mapM_fromMain (contents : Bytes) (resolved : MainUsers) (processes : List MainProcess)
    (hsnapshot : Snapshot contents resolved) (hcovers : Covers processes resolved) :
    ∃ main, processes.mapM (fromMain resolved) = .ok main ∧
      List.Forall₂ (LaunchesMain contents) processes main := by
  induction processes with
  | nil => exact ⟨[], rfl, List.Forall₂.nil⟩
  | cons declared rest ih =>
    obtain ⟨process, hone, hlaunches⟩ := fromMain_launches contents resolved declared hsnapshot
      (hcovers declared List.mem_cons_self)
    obtain ⟨main, hrest, hall⟩ := ih fun other ho => hcovers other (List.mem_cons_of_mem _ ho)
    refine ⟨process :: main, ?_, List.Forall₂.cons hlaunches hall⟩
    rw [mapM_eq_ok] at hrest ⊢
    exact List.Forall₂.cons hone hrest

/-- The list is the declarations in order, sidecars first, with one snapshot for all names. -/
structure Flattened (file : PasswdFile) (spec : Spec) (launch : List LaunchProcess) : Prop where
  lists : ∃ contents sidecars main, launch = sidecars ++ main ∧
    List.Forall₂ LaunchesSidecar spec.sidecars sidecars ∧
    ((∃ process ∈ spec.main, ∃ user, Named process user) → readMainPasswd file = .ok contents) ∧
    List.Forall₂ (LaunchesMain contents) spec.main main

theorem sidecars_launch (sidecars : List SidecarProcess) :
    List.Forall₂ LaunchesSidecar sidecars (sidecars.map fromSidecar) := by
  induction sidecars with
  | nil => exact List.Forall₂.nil
  | cons process rest ih => exact List.Forall₂.cons ⟨rfl, rfl⟩ ih

theorem flatten_cases (file : PasswdFile) (spec : Spec) :
    (Unresolvable file spec.main ∧ ∃ error, flatten file spec = .error (.error error)) ∨
      (¬Unresolvable file spec.main ∧ ∃ launch, flatten file spec = .ok launch ∧
        Flattened file spec launch) := by
  have hfails := resolveMainUsers_fails file spec.main
  unfold flatten
  cases hresolve : resolveMainUsers file spec.main with
  | error error =>
    exact Or.inl ⟨hfails.mp ⟨error, hresolve⟩, error, rfl⟩
  | ok resolved =>
    obtain ⟨contents, hread, hsnapshot, hcovers⟩ :=
      resolveMainUsers_ok file spec.main resolved hresolve
    obtain ⟨main, hmain, hlaunches⟩ := mapM_fromMain contents resolved spec.main hsnapshot hcovers
    right
    constructor
    · intro hun
      obtain ⟨error, herror⟩ := hfails.mpr hun
      rw [hresolve] at herror
      cases herror
    · refine ⟨spec.sidecars.map fromSidecar ++ main, ?_,
        ⟨contents, _, main, rfl, sidecars_launch spec.sidecars, hread, hlaunches⟩⟩
      show (spec.main.mapM (fromMain resolved) >>= _) = _
      rw [hmain]
      rfl

theorem flattened_of_ok {file : PasswdFile} {spec : Spec} {launch : List LaunchProcess}
    (h : flatten file spec = .ok launch) : Flattened file spec launch := by
  rcases flatten_cases file spec with ⟨-, error, herror⟩ | ⟨-, found, hfound, hlists⟩
  · rw [herror] at h
    cases h
  · rw [hfound] at h
    obtain rfl := Except.ok.inj h
    exact hlists

/-! ### The partial operations of a launch -/

/-- Building the command and choosing the gate of a process meet no panic. -/
structure Launchable (process : LaunchProcess) : Prop where
  command : ∀ (ε : Type) (sandrun : Bytes),
    NoPanic (buildCommand process sandrun : Except (Failure ε) Command)
  gate : process.kind = .runToCompletion → ∃ timeout,
    (expect process.completionTimeoutMs : Except (Failure RuntimeError) UInt64) = .ok timeout ∧
    ∀ index, passGate process index = waitForJob index (timeout.toNat * millisecond)

theorem launchable_of_wellFormed (process : LaunchProcess)
    (h : WellFormedCommon process.toCommonProcess) : Launchable process := by
  constructor
  · intro ε sandrun
    obtain ⟨command, hbuild⟩ := buildCommand_total (ε := ε) process h.executable sandrun
    rw [hbuild]
    exact noPanic_ok command
  · intro hkind
    have hrules := h.kind
    unfold WellFormedKind at hrules
    rw [hkind] at hrules
    obtain ⟨-, timeout, htimeout, -⟩ := hrules
    refine ⟨timeout, (expect_eq_ok _ _).mpr htimeout, fun index => ?_⟩
    unfold passGate
    rw [hkind, htimeout]
    rfl

theorem validate_of_decode {decoders : Decoders} {encoded : Bytes} {spec : Spec}
    (h : decode decoders encoded = .ok spec) : validate spec = .ok () := by
  simp only [decode, bind_eq_ok, exists_unit] at h
  obtain ⟨-, -, -, -, -, found, -, hvalid, hsame⟩ := h
  rw [← Except.ok.inj hsame]
  exact hvalid

/-- Flattening an admitted declaration fails for want of a user's identity only; its list is
the declaration's own, and launching that list meets no panic. -/
theorem flatten_total (decoders : Decoders) (payload : Bytes) (spec : Spec) (file : PasswdFile)
    (h : decode decoders payload = .ok spec) :
    NoPanic (flatten file spec) ∧
    ((∃ error, flatten file spec = .error (.error error)) ↔ Unresolvable file spec.main) ∧
    ∀ launch, flatten file spec = .ok launch →
      Flattened file spec launch ∧ ∀ process ∈ launch, Launchable process := by
  have hwell := processes_wellFormed spec ((validate_eq_ok spec).mp (validate_of_decode h))
  rcases flatten_cases file spec with ⟨hun, error, herror⟩ | ⟨hres, launch, hok, hflat⟩
  · refine ⟨?_, ⟨fun _ => hun, fun _ => ⟨error, herror⟩⟩, ?_⟩
    · rw [herror]
      exact noPanic_error error
    · intro launch hok
      rw [herror] at hok
      cases hok
  · refine ⟨?_, ⟨?_, fun hun => absurd hun hres⟩, ?_⟩
    · rw [hok]
      exact noPanic_ok launch
    · rintro ⟨error, herror⟩
      rw [hok] at herror
      cases herror
    · intro found hfound
      rw [hok] at hfound
      obtain rfl := Except.ok.inj hfound
      refine ⟨hflat, fun process hp => launchable_of_wellFormed process ?_⟩
      apply hwell
      rw [← flatten_common file spec launch hok]
      exact List.mem_map_of_mem hp

/-- A sidecar that runs as root. -/
def namedSidecar : SidecarProcess where
  name := lit "proxy"
  kind := .service
  command := [lit "/bin/proxy"]
  env := ∅
  workdir := []
  readinessProbe := none
  completionTimeoutMs := none
  rootfs := lit "/mnt/proxy"
  overlayDevice := none
  standardMounts := false
  diskMounts := []
  binds := []
  user := some (.numeric ⟨0, 0⟩)

/-- A service that runs as a user of the image. -/
def namedMain (name : Bytes) : MainProcess where
  name := name
  kind := .service
  command := [lit "/bin/web"]
  env := ∅
  workdir := []
  readinessProbe := none
  completionTimeoutMs := none
  user := some (.named ⟨lit "www"⟩)

/-- Both services run as the same user. -/
def namedSpec : Spec := ⟨3, [namedSidecar], [namedMain (lit "web"), namedMain (lit "jobs")]⟩

def namedPayload : Bytes := Base64.encode <|
  lit "\x7b\"version\":3,\"sidecars\":[\x7b\"name\":\"proxy\",\"kind\":\"service\"," ++
  lit "\"rootfs\":\"/mnt/proxy\",\"command\":[\"/bin/proxy\"]," ++
  lit "\"user\":\x7b\"uid\":0,\"gid\":0\x7d\x7d],\"main\":[\x7b" ++
  lit "\"name\":\"web\",\"kind\":\"service\",\"command\":[\"/bin/web\"]," ++
  lit "\"user\":\x7b\"name\":\"www\"\x7d\x7d,\x7b" ++
  lit "\"name\":\"jobs\",\"kind\":\"service\",\"command\":[\"/bin/web\"]," ++
  lit "\"user\":\x7b\"name\":\"www\"\x7d\x7d]\x7d"

def namedPasswd : PasswdFile where
  metadata := .ok (true, 43)
  contents := .ok (lit "www:x:33:33:www:/var/www:/usr/sbin/nologin\n")

theorem flatten_total_named :
    NoPanic (flatten namedPasswd namedSpec) ∧
    ((∃ error, flatten namedPasswd namedSpec = .error (.error error)) ↔
      Unresolvable namedPasswd namedSpec.main) ∧
    (∀ launch, flatten namedPasswd namedSpec = .ok launch →
      Flattened namedPasswd namedSpec launch ∧ ∀ process ∈ launch, Launchable process) ∧
    (flatten namedPasswd namedSpec).isOk = true := by
  obtain ⟨hnoPanic, hfails, hlaunch⟩ := flatten_total Agreement.compactDecoders namedPayload
    namedSpec namedPasswd (by decide +kernel)
  exact ⟨hnoPanic, hfails, hlaunch, by decide +kernel⟩

end Sandcamp.Flattening
