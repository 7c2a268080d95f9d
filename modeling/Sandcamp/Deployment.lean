import Sandcamp.Endings
import Sandcamp.Sandrun.Main

/-!
# From the SDK to the commands

What `RenderStart` accepts passes through two programs: campd decodes it and launches it in its
order, and sandrun reads the command line that campd makes for a sidecar. Neither refuses it, and
however the kernel answers sandrun, the command of a sidecar starts only where all that its
declaration asks for has been done.
-/

namespace Sandcamp.Deployment
open Foundations Sandcamp.Sdk Sandcamp.Agreement Sandcamp.Reading Sandcamp.Handoff Sandcamp.Endings
open Sandcamp.Flattening (ResolvesUser LaunchesSidecar LaunchesMain flattened_of_ok
  validate_of_decode)
open Campd (Decoders LaunchProcess Command SidecarProcess MainProcess PasswdFile Kernel Turn Act
  WellFormedSidecar WellFormedMain buildCommand fromSidecar decode flatten readMainPasswd spawned)

/-! ### What a declaration calls for -/

/-- The configuration of sandrun for a sidecar. -/
def sandbox (process : Sdk.Process) : Sandrun.Config where
  rootfs := lit "/mnt/sandcamp-sidecars/" ++ process.name
  overlayDevice := some
    (if process.overlayDevice = [] then lit "/dev/vdb" else process.overlayDevice)
  overlayId := some process.name
  workdir := sandrunWorkdir process.workDir
  user := process.user.map fun user => sandrunUser (userForm user)
  standardMounts := true
  diskMounts := process.diskMounts
  binds := process.mounts.map fun mount => sandrunBind (bindForm mount)
  tmpfs := []
  command := process.command

/-- However the kernel answers, sandrun comes to print an error on this command line, or it becomes
the command. -/
def Sandboxes (declared : Sdk.Process) (arguments : List Bytes) : Prop :=
  ∀ sha256 written history exit,
    Thread.Course (Sandrun.main sha256 written arguments) history (.pure exit) →
      (∃ error, exit = Sandrun.printing written (.failure error) (.failed error)) ∨
        exit = .replaced ∧ Sandrun.Became sha256 (sandbox declared) history

/-- A sidecar is launched as sandrun, in its own environment. -/
structure Sandboxed (sandrun : Bytes) (declared : Sdk.Process) (process : LaunchProcess) :
    Prop where
  common : IntendedCommon declared process.toCommonProcess
  command : ∃ command,
    (buildCommand process sandrun : Except (Failure Campd.RuntimeError) Command) = .ok command ∧
      command.program = sandrun ∧ (∀ inherited, command.childEnv inherited = declared.env) ∧
      Sandboxes declared command.args

/-- A main process is launched as its own command, as the user that `/etc/passwd` gives. -/
structure Executed (sandrun contents : Bytes) (declared : Sdk.Process) (process : LaunchProcess) :
    Prop where
  common : IntendedCommon declared process.toCommonProcess
  user : ∃ id, process.source = .main id ∧ ResolvesUser contents (declared.user.map userForm) id
  command : ∃ command,
    (buildCommand process sandrun : Except (Failure Campd.RuntimeError) Command) = .ok command ∧
      command.program :: command.args = declared.command ∧
      command.currentDir = (if declared.workDir ≠ [] then some declared.workDir else none) ∧
      ∀ inherited, command.childEnv inherited =
        (extendEnv inherited declared.env).erase Campd.specEnvironment

/-- The launch list is the declaration of the SDK, sidecars first. -/
structure Deployed (spec : Sdk.Spec) (file : PasswdFile) (sandrun : Bytes)
    (launch : List LaunchProcess) : Prop where
  lists : ∃ contents sidecars main, launch = sidecars ++ main ∧
    List.Forall₂ (Sandboxed sandrun) spec.sidecars sidecars ∧
    ((∃ process ∈ spec.main, ∃ user, process.user = some user ∧ user.name ≠ []) →
      readMainPasswd file = .ok contents) ∧
    List.Forall₂ (Executed sandrun contents) spec.main main

/-- `env::var(SPEC_ENVIRONMENT)`, where the environment has what the configuration sets. -/
def encodedOf (configuration : CustomConfiguration) : Option Bytes :=
  (configuration.env.find? fun entry => entry.name = Campd.specEnvironment).map (·.value)

/-- campd runs a declaration that it launches in the order of the SDK and as the SDK says. -/
structure Carried (decoders : Decoders) (surroundings : Surroundings) (spec : Sdk.Spec)
    (decoded : Campd.Spec) : Prop where
  read : ∃ payload, surroundings.encoded = some payload ∧ decode decoders payload = .ok decoded
  admitted : campd decoders surroundings = (do
    Program.ofExcept (surroundings.server.mapError fun error => Failure.error ⟨error⟩)
    Campd.run surroundings.host decoded : Act ℕ)
  deployed : ∀ sandrun launch, flatten surroundings.host.passwd decoded = .ok launch →
    Deployed spec surroundings.host.passwd sandrun launch
  inOrder : ∀ kernel schedule launch, flatten surroundings.host.passwd decoded = .ok launch →
    spawned (main decoders surroundings kernel schedule).2 <+: launch.map (·.toCommonProcess)

/-! ### Sidecars -/

theorem declaredConfig_intended {declared : Sdk.Process} {sidecar : SidecarProcess}
    (h : IntendedSidecar declared sidecar) : declaredConfig sidecar = sandbox declared := by
  unfold declaredConfig sandbox
  rw [h.rootfs, h.overlayDevice, h.common.name, h.common.workdir, h.user, h.standardMounts,
    h.diskMounts, h.binds, h.common.command, Option.map_map, List.map_map]
  rfl

/-- Two words at least are on the command line of a sidecar. -/
theorem sidecarArgs_long (sidecar : SidecarProcess) : (sidecarArgs sidecar).length ≠ 1 := by
  have hmore : ∃ first second rest, sidecarArgs sidecar = first :: second :: rest :=
    ⟨_, _, _, rfl⟩
  obtain ⟨first, second, rest, heq⟩ := hmore
  simp [heq]

theorem sandboxes_sidecarArgs {declared : Sdk.Process} {sidecar : SidecarProcess}
    (h : IntendedSidecar declared sidecar) (hwell : WellFormedSidecar sidecar) :
    Sandboxes declared (sidecarArgs sidecar) := by
  intro sha256 written history exit hcourse
  have hparsed : Sandrun.parseArgs (sidecarArgs sidecar) = .ok (sandbox declared) := by
    refine (parseArgs_sidecarArgs sidecar hwell _).mpr ⟨Or.inr ?_, (declaredConfig_intended h).symm⟩
    rw [h.overlayDevice]
    rfl
  have hlong := sidecarArgs_long sidecar
  unfold Sandrun.main at hcourse
  rw [if_neg fun hone => hlong hone.1, if_neg fun hone => hlong hone.1, hparsed] at hcourse
  exact Sandrun.handle_ends hparsed hcourse

theorem sandboxed_of_launches {declared : Sdk.Process} {sidecar : SidecarProcess}
    {process : LaunchProcess} (sandrun : Bytes) (h : IntendedSidecar declared sidecar)
    (hwell : WellFormedSidecar sidecar) (hlaunches : LaunchesSidecar sidecar process) :
    Sandboxed sandrun declared process := by
  have hprocess : process = fromSidecar sidecar := by
    cases process with
    | mk common source =>
      obtain rfl : common = sidecar.toCommonProcess := hlaunches.common
      obtain rfl := hlaunches.source
      rfl
  rw [hprocess]
  obtain ⟨command, hbuild, hprogram, hargs⟩ := buildCommand_sidecar sidecar sandrun
  refine ⟨h.common, command, hbuild, hprogram, fun inherited => ?_, ?_⟩
  · rw [childEnv_sidecar sidecar hwell.common sandrun command hbuild inherited]
    exact h.common.env
  · rw [hargs]
    exact sandboxes_sidecarArgs h hwell

/-! ### Main processes -/

theorem buildCommand_main (process : LaunchProcess) (id : Option Campd.NumericUser)
    (hsource : process.source = .main id)
    (hexecutable : Campd.validExecutable process.command = true)
    (sandrun : Bytes) : ∃ command,
      (buildCommand process sandrun : Except (Failure Campd.RuntimeError) Command) = .ok command ∧
        command.program :: command.args = process.command ∧
        command.currentDir = (if process.workdir ≠ [] then some process.workdir else none) := by
  cases hcommand : process.command with
  | nil =>
    rw [hcommand] at hexecutable
    cases hexecutable
  | cons program args =>
    refine ⟨{ program := program, args := args,
              currentDir := if process.workdir ≠ [] then some process.workdir else none,
              environment := [] ++ Campd.setEnvs process.env ++ [.remove Campd.specEnvironment],
              stdin := .null, stdout := .inherit, stderr := .inherit }, ?_, rfl, rfl⟩
    simp only [buildCommand, hsource, hcommand, bind_eq_ok, expect_eq_ok, sliceFrom_eq_ok,
      Except.ok.injEq]
    exact ⟨program, rfl, args, ⟨by simp, rfl⟩, _, rfl, rfl⟩

theorem executed_of_launches {declared : Sdk.Process} {main : MainProcess}
    {process : LaunchProcess} {contents : Bytes} (sandrun : Bytes) (h : IntendedMain declared main)
    (hwell : WellFormedMain main) (hlaunches : LaunchesMain contents main process) :
    Executed sandrun contents declared process := by
  obtain ⟨id, hsource, hresolves⟩ := hlaunches.source
  have hcommon : IntendedCommon declared process.toCommonProcess := by
    rw [hlaunches.common]
    exact h.common
  have hexecutable : Campd.validExecutable process.command = true := by
    rw [hlaunches.common]
    exact hwell.common.executable
  obtain ⟨command, hbuild, hwords, hdirectory⟩ :=
    buildCommand_main process id hsource hexecutable sandrun
  refine ⟨hcommon, ⟨id, hsource, ?_⟩, command, hbuild, ?_, ?_, fun inherited => ?_⟩
  · rw [← h.user]
    exact hresolves
  · rw [hwords, hcommon.command]
  · rw [hdirectory, hcommon.workdir]
  · rw [buildCommand_childEnv process sandrun command hbuild inherited, hsource, hcommon.env]
    rfl

/-! ### The whole way -/

theorem forall₂_through {α β γ : Type} {R : α → β → Prop} {S : β → γ → Prop} {T : α → γ → Prop}
    {P : β → Prop} {xs : List α} {ys : List β} {zs : List γ} (hxy : List.Forall₂ R xs ys)
    (hyz : List.Forall₂ S ys zs) (hP : ∀ y ∈ ys, P y)
    (h : ∀ x y z, R x y → P y → S y z → T x z) : List.Forall₂ T xs zs := by
  induction hxy generalizing zs with
  | nil =>
    cases hyz
    exact .nil
  | cons hfirst _ ih =>
    cases hyz with
    | cons hsecond hrest =>
      exact .cons (h _ _ _ hfirst (hP _ List.mem_cons_self) hsecond)
        (ih hrest fun y hy => hP y (List.mem_cons_of_mem _ hy))

theorem deployed_of_flatten {spec : Sdk.Spec} {decoded : Campd.Spec} {file : PasswdFile}
    {launch : List LaunchProcess} (sandrun : Bytes) (hintended : Intended spec decoded)
    (hwell : Campd.WellFormed decoded) (hflatten : flatten file decoded = .ok launch) :
    Deployed spec file sandrun launch := by
  obtain ⟨contents, sidecars, main, rfl, hsidecars, hread, hmain⟩ :=
    (flattened_of_ok hflatten).lists
  refine ⟨contents, sidecars, main, rfl, ?_, fun hnamed => hread ?_, ?_⟩
  · exact forall₂_through hintended.sidecars hsidecars hwell.sidecars fun _ _ _ h hw =>
      sandboxed_of_launches sandrun h hw
  · obtain ⟨declared, hdeclared, user, huser, hname⟩ := hnamed
    obtain ⟨process, hprocess, h⟩ := forall₂_left hintended.main declared hdeclared
    refine ⟨process, hprocess, user.name, ?_⟩
    show process.user = _
    rw [h.user, huser, Option.map_some, userForm, if_neg hname]
  · exact forall₂_through hintended.main hmain hwell.main fun _ _ _ h hw =>
      executed_of_launches sandrun h hw

theorem campd_admits {decoders : Decoders} {surroundings : Surroundings} {payload : Bytes}
    {decoded : Campd.Spec} (hencoded : surroundings.encoded = some payload)
    (hdecode : decode decoders payload = .ok decoded) :
    campd decoders surroundings = (do
      Program.ofExcept (surroundings.server.mapError fun error => Failure.error ⟨error⟩)
      Campd.run surroundings.host decoded : Act ℕ) := by
  have hread : campd decoders surroundings = (do
      let spec ← Program.ofExcept ((decode decoders payload).mapError fun error =>
        Failure.error ⟨error.message⟩)
      Program.ofExcept (surroundings.server.mapError fun error => Failure.error ⟨error⟩)
      Campd.run surroundings.host spec) := by
    simp only [campd, hencoded]
    rfl
  rw [hread, hdecode]
  rfl

/-- What the SDK has rendered, campd launches in the order of the SDK; a sidecar is launched so
that, however the kernel answers, its command only starts in the sandbox it calls for. -/
theorem rendered_runs {decoders : Decoders} (htrip : RoundTrips decoders)
    {replacement : Json.Replacement} {images : ImageSet} {spec : Sdk.Spec} (hutf8 : spec.Utf8)
    {configuration : CustomConfiguration}
    (h : renderStart replacement images spec = .ok configuration) {surroundings : Surroundings}
    (hencoded : surroundings.encoded = encodedOf configuration) :
    ∃ decoded, Carried decoders surroundings spec decoded := by
  obtain ⟨payload, decoded, henv, hdecode, hintended⟩ := decoded_of_rendered htrip hutf8 h
  have hfound : surroundings.encoded = some payload := by
    rw [hencoded, encodedOf, henv]
    rfl
  have hvalid := validate_of_decode hdecode
  have hwell := (Campd.validate_eq_ok decoded).mp hvalid
  refine ⟨decoded, ⟨payload, hfound, hdecode⟩, campd_admits hfound hdecode,
    fun sandrun launch hflatten => ?_, fun kernel schedule launch hflatten => ?_⟩
  · exact deployed_of_flatten sandrun hintended hwell hflatten
  · rcases main_trace decoders surroundings kernel schedule with hnothing |
      ⟨found, hfoundValid, hdeclared, hsuffix⟩
    · rw [hnothing]
      exact List.nil_prefix
    · have hsame : decoded.processes = found.processes := by
        rw [← hdeclared, declared, hfound, Option.map_some, hdecode]
      have hsafe := always_suffix (Campd.run_safe surroundings.host found kernel schedule) hsuffix
      rw [Campd.flatten_common _ _ _ hflatten, hsame, (Campd.spawned_eq_take hsafe).1]
      exact List.take_prefix _ _

def webSurroundings : Surroundings where
  encoded := (renderStart .literal webImages webSpec).toOption.bind encodedOf
  server := .ok ()
  host := ⟨Flattening.namedPasswd, .ok (), .ok (lit "/opt/sandrun")⟩
  written _ := true
  reported _ := true

theorem rendered_runs_web : ∃ decoded launch,
    flatten Flattening.namedPasswd decoded = .ok launch ∧ launch.length = 2 ∧
      Carried compactDecoders webSurroundings webSpec decoded := by
  have hrendered : (renderStart .literal webImages webSpec).isOk = true := by decide +kernel
  have hlaunched : ((webSurroundings.encoded.bind fun payload =>
      (decode compactDecoders payload).toOption).bind fun decoded =>
        (flatten Flattening.namedPasswd decoded).toOption).map List.length = some 2 := by
    decide +kernel
  cases h : renderStart .literal webImages webSpec with
  | error e =>
    rw [h] at hrendered
    cases hrendered
  | ok configuration =>
    have hencoded : webSurroundings.encoded = encodedOf configuration := by
      rw [webSurroundings, h]
      rfl
    obtain ⟨decoded, hcarried⟩ :=
      rendered_runs compactDecoders_roundTrips webSpec_utf8 h hencoded
    obtain ⟨payload, hpayload, hdecode⟩ := hcarried.read
    rw [hpayload, Option.bind_some, hdecode] at hlaunched
    obtain ⟨launch, hlaunch, hlength⟩ := Option.map_eq_some_iff.mp hlaunched
    refine ⟨decoded, launch, ?_, hlength, hcarried⟩
    cases hflatten : flatten Flattening.namedPasswd decoded with
    | error e =>
      rw [Except.toOption, Option.bind_some, hflatten] at hlaunch
      cases hlaunch
    | ok found =>
      rw [Except.toOption, Option.bind_some, hflatten] at hlaunch
      rw [Option.some.inj hlaunch]

end Sandcamp.Deployment
