import Sandcamp.Campd.WellFormed
import Sandcamp.Sdk.Wire
import Sandcamp.Reading

/-!
# campd accepts what the SDK renders

The two validators rule by rule: names, paths, probe paths and limits. With outside
decoders that read back what was encoded, campd decodes every rendered payload, and to the
intended declaration.
-/

namespace Sandcamp.Agreement
open Foundations Foundations.UnixPath Sandcamp.Sdk Sandcamp.Campd Sandcamp.Reading

/-! ### Names -/

theorem validName_of_pattern (name : Bytes) (h : processNamePattern.matchString name = true) :
    validName name = true := by
  obtain ⟨b, bs, rfl, hfirst, hrest, hlength⟩ := matchString_cons _ _ h
  have hle : bs.length ≤ 63 := hlength 63 rfl
  have hfirst' : isAsciiAlphanumeric b = true := hfirst
  have hall : ∀ c ∈ bs, nameByte c = true := hrest
  simp only [validName, Bool.and_eq_true, decide_eq_true_eq, List.all_eq_true, List.length_cons]
  refine ⟨⟨by omega, hfirst'⟩, ?_⟩
  intro c hc
  rcases List.mem_cons.mp hc with rfl | hc
  · simp [nameByte, hfirst']
  · exact hall c hc

theorem validUserName_of_pattern (name : Bytes) (h : userNamePattern.matchString name = true) :
    validUserName name = true := by
  obtain ⟨b, bs, rfl, hfirst, hrest, hlength⟩ := matchString_cons _ _ h
  have hle : bs.length ≤ 63 := hlength 63 rfl
  have hfirst' : (isAsciiAlphabetic b || b == 95) = true := hfirst
  have hall : ∀ c ∈ bs, nameByte c = true := hrest
  simp only [validUserName, Bool.and_eq_true, decide_eq_true_eq, List.all_eq_true,
    List.length_cons]
  refine ⟨⟨by omega, hfirst'⟩, ?_⟩
  intro c hc
  rcases List.mem_cons.mp hc with rfl | hc
  · rw [Bool.or_eq_true] at hfirst'
    rcases hfirst' with halpha | hunderscore
    · simp [nameByte, isAsciiAlphanumeric, halpha]
    · simp [nameByte, hunderscore]
  · exact hall c hc

theorem validEnvironmentName_of_pattern (name : Bytes)
    (h : environmentPattern.matchString name = true) : validEnvironmentName name = true := by
  obtain ⟨b, bs, rfl, hfirst, hrest, -⟩ := matchString_cons _ _ h
  simp only [validEnvironmentName, Bool.and_eq_true, List.all_eq_true]
  exact ⟨hfirst, hrest⟩

/-! ### Paths -/

theorem validPath_of_allowRoot (v : Bytes) (h : validAbsolutePathAllowRoot v = true) :
    validPath v true = true := by
  rw [validAbsolutePathAllowRoot_iff] at h
  obtain ⟨-, hnul, hshape⟩ := h
  rw [validPath_true]
  refine ⟨hnul, ?_⟩
  rw [hshape]
  exact cleanAbsolute_absolute _ (names_proper v)

theorem validPath_of_path (v : Bytes) (h : validAbsolutePath v = true) :
    validPath v false = true := by
  rw [validAbsolutePath_iff] at h
  obtain ⟨⟨-, hnul, hshape⟩, hnames⟩ := h
  have hclean : cleanAbsolute v = true := by
    rw [hshape]
    exact cleanAbsolute_absolute _ (names_proper v)
  rw [validPath_false]
  exact ⟨hnul, hclean, hnames⟩

/-! ### Probe paths -/

theorem isHex_eq (b : UInt8) : isHex b = isAsciiHexdigit b := rfl

theorem isHTTPOriginCharacter_eq (b : UInt8) :
    isHTTPOriginCharacter b = (isAsciiAlphanumeric b || originPunctuation.contains b) := by
  unfold isHTTPOriginCharacter isAsciiAlphanumeric isAsciiAlphabetic isAsciiDigit
    originPunctuation
  rfl

theorem originFormFrom_escape (high low : UInt8) (rest : Bytes) :
    originFormFrom (37 :: high :: low :: rest) =
      if isAsciiHexdigit high && isAsciiHexdigit low then originFormFrom rest else false := by
  rw [originFormFrom.eq_def]
  rfl

/-- Fewer than two bytes are left behind the percent sign. -/
theorem originFormFrom_cut (rest : Bytes) (h : rest.length < 2) :
    originFormFrom (37 :: rest) = false := by
  rw [originFormFrom.eq_def]
  match rest, h with
  | [], _ => rfl
  | [_], _ => rfl

theorem originFormFrom_other (character : UInt8) (rest : Bytes) (h : character ≠ 37) :
    originFormFrom (character :: rest) =
      if isAsciiAlphanumeric character || originPunctuation.contains character then
        originFormFrom rest else false := by
  rw [originFormFrom.eq_def]
  simp only [h, if_false]

/-- The index loop reads what the list recursion reads. -/
theorem originFormLoop_eq (value : Bytes) (fuel index : ℕ) (h : value.length ≤ index + fuel) :
    originFormLoop value fuel index = originFormFrom (value.drop index) := by
  induction fuel generalizing index with
  | zero =>
    rw [List.drop_eq_nil_of_le (by omega)]
    rfl
  | succ fuel ih =>
    rw [originFormLoop]
    cases hat : value[index]? with
    | none =>
      rw [List.drop_eq_nil_of_le (List.getElem?_eq_none_iff.mp hat)]
      rfl
    | some character =>
      obtain ⟨hlt, hget⟩ := List.getElem?_eq_some_iff.mp hat
      rw [List.drop_eq_getElem_cons hlt, hget]
      dsimp only
      by_cases hescape : character = 37
      · subst hescape
        rw [if_pos rfl]
        by_cases hshort : value.length ≤ index + 2
        · have hfew : (value.drop (index + 1)).length < 2 := by
            rw [List.length_drop]
            omega
          rw [if_pos (Or.inl hshort), originFormFrom_cut _ hfew]
        · have hhigh : index + 1 < value.length := by omega
          have hlow : index + 2 < value.length := by omega
          have hdrop : value.drop (index + 1) =
              value[index + 1] :: value[index + 2] :: value.drop (index + 3) := by
            rw [List.drop_eq_getElem_cons hhigh, List.drop_eq_getElem_cons hlow]
          have hgetHigh : value.getD (index + 1) 0 = value[index + 1] := by simp [hhigh]
          have hgetLow : value.getD (index + 2) 0 = value[index + 2] := by simp [hlow]
          rw [hdrop, originFormFrom_escape, ih (index + 3) (by omega), hgetHigh, hgetLow, isHex_eq,
            isHex_eq]
          cases isAsciiHexdigit value[index + 1] <;> cases isAsciiHexdigit value[index + 2] <;>
            simp [hshort]
      · rw [if_neg hescape, originFormFrom_other _ _ hescape, isHTTPOriginCharacter_eq,
          ih (index + 1) (by omega)]
        cases (isAsciiAlphanumeric character || originPunctuation.contains character) <;> rfl

theorem validHTTPOriginForm_eq (value : Bytes) :
    validHTTPOriginForm value = validHttpOriginForm value := by
  unfold validHTTPOriginForm validHttpOriginForm hasRoot
  by_cases hroot : value.head? = some slash
  · rw [if_pos (by simp [hroot]), if_pos hroot, originFormLoop_eq value _ 0 (by omega),
      List.drop_zero]
  · rw [if_neg (by simp [hroot]), if_neg hroot]

/-! ### Probes, users and processes -/

theorem withinLimits_of_whole {low : ℕ} {duration : Int64} {ms minimum : UInt64}
    (h : WholeMilliseconds low 30000 duration)
    (hexact : 1000000 * (ms.toNat : ℤ) = duration.toInt) (hminimum : minimum.toNat = low) :
    withinLimits minimum ms = true := by
  obtain ⟨k, hlow, hhigh, hvalue⟩ := h
  rw [withinLimits_eq, hminimum]
  omega

theorem wellFormedProbe_of_intended {probe : Sdk.ReadinessProbe} {decoded : Campd.Probe}
    (h : AcceptedProbe probe.withDefaults) (hi : IntendedProbe probe decoded) :
    WellFormedProbe decoded := by
  obtain ⟨hstartup₀, hperiod₀, htimeout₀, hfailure₀, hsuccess₀⟩ := withDefaults_declared probe
  have hstartup := hi.startup.trans hstartup₀.symm
  have hperiod := hi.period.trans hperiod₀.symm
  have htimeout := hi.timeout.trans htimeout₀.symm
  have hport := h.port
  have hportValue := hi.port
  have hsame : probe.withDefaults.port = probe.port := rfl
  have hcontrolInt : (Sdk.controlPort).toInt = 49982 := by decide
  have hcontrol : probe.port.toInt ≠ 49982 := by
    intro he
    refine hport.2.2 ?_
    rw [hsame, ← Int64.toInt_inj, he, hcontrolInt]
  rw [hsame] at hport
  refine ⟨?_, ⟨?_, ?_⟩, withinLimits_of_whole h.startup hstartup rfl,
    withinLimits_of_whole h.period hperiod rfl, withinLimits_of_whole h.timeout htimeout rfl,
    ?_, ⟨?_, ?_⟩⟩
  · rw [hi.path, ← validHTTPOriginForm_eq]
    exact h.path
  · intro he
    rw [he] at hportValue
    have hzero : ((0 : UInt16).toNat : ℤ) = 0 := rfl
    omega
  · intro he
    rw [he] at hportValue
    have hvalue : (Campd.controlPort.toNat : ℤ) = 49982 := rfl
    omega
  · have hle := h.timeout_le
    rw [UInt64.lt_iff_toNat_lt]
    omega
  · intro he
    have hvalue := hi.failureThreshold.trans hfailure₀.symm
    rw [he] at hvalue
    have hlow := h.failureThreshold.1
    have hzero : ((0 : UInt32).toNat : ℤ) = 0 := rfl
    omega
  · intro he
    have hvalue := hi.successThreshold.trans hsuccess₀.symm
    rw [he] at hvalue
    have hlow := h.successThreshold.1
    have hzero : ((0 : UInt32).toNat : ℤ) = 0 := rfl
    omega

theorem wellFormedUser_of_accepted (user : Sdk.ProcessUser) (h : AcceptedUser user) :
    WellFormedUser (userForm user) := by
  unfold AcceptedUser at h
  unfold userForm
  split at h
  · rename_i hempty
    rw [if_pos hempty]
    exact h
  · rename_i hname
    rw [if_neg hname]
    exact validUserName_of_pattern user.name h.1

theorem wellFormedKind_of_intended {process : Sdk.Process} {decoded : CommonProcess}
    (h : AcceptedKind process) (hi : IntendedCommon process decoded) : WellFormedKind decoded := by
  have hkind := hi.kind
  have hprobe := hi.probe
  have hcompletion := hi.completion
  unfold AcceptedKind at h
  unfold WellFormedKind
  by_cases hjob : process.kind = runToCompletion
  · rw [if_pos hjob] at h hkind hcompletion
    rw [hkind]
    obtain ⟨ms, hms, hexact⟩ := hcompletion
    rw [h.1] at hprobe
    refine ⟨?_, ms, hms, withinLimits_of_whole h.2 hexact rfl⟩
    cases hd : decoded.readinessProbe with
    | none => rfl
    | some probe =>
      rw [hd] at hprobe
      cases hprobe
  · rw [if_neg hjob] at h hkind hcompletion
    rw [hkind]
    refine ⟨hcompletion, fun probe hp => ?_⟩
    rw [hp] at hprobe
    cases hdeclared : process.probe with
    | none =>
      rw [hdeclared] at hprobe
      cases hprobe
    | some declared =>
      rw [hdeclared] at hprobe
      cases hprobe with
      | some hintended =>
        exact wellFormedProbe_of_intended (h.2.2 declared hdeclared) hintended

theorem wellFormedCommon_of_intended {process : Sdk.Process} {decoded : CommonProcess}
    (h : Accepted process) (hi : IntendedCommon process decoded) : WellFormedCommon decoded := by
  refine ⟨?_, ?_, ?_, ?_, ?_, wellFormedKind_of_intended h.kind hi⟩
  · rw [hi.name]
    exact validName_of_pattern _ h.name
  · have hcommand := h.command
    rw [hi.command]
    cases hc : process.command with
    | nil =>
      rw [hc] at hcommand
      cases hcommand
    | cons executable rest =>
      rw [hc] at hcommand
      exact validPath_of_path executable hcommand
  · rw [hi.command]
    exact h.arguments
  · rw [hi.workdir]
    exact h.workDir.imp id (validPath_of_allowRoot _)
  · rw [hi.env]
    intro entry hm
    obtain ⟨hkey, hvalue, hspec⟩ := h.env entry hm
    exact ⟨validEnvironmentName_of_pattern _ hkey, hvalue, hspec⟩

theorem wellFormedSidecar_of_intended {process : Sdk.Process} {decoded : SidecarProcess}
    (h : AcceptedSidecar process) (hi : IntendedSidecar process decoded) :
    WellFormedSidecar decoded := by
  have hname := properName_of_processName process.name h.common.name
  have hproper : ∀ n ∈ sidecarRootNames ++ [process.name], ProperName n := by
    intro n hn
    rcases List.mem_append.mp hn with hn | hn
    · exact sidecarRootNames_proper n hn
    · rw [List.mem_singleton.mp hn]
      exact hname
  have hnul : nul ∉ lit "/mnt/sandcamp-sidecars/" ++ process.name := by
    intro hm
    rcases List.mem_append.mp hm with hm | hm
    · revert hm
      decide
    · have hvalid := validName_of_pattern _ h.common.name
      obtain ⟨b, bs, hshape, -⟩ := matchString_cons _ _ h.common.name
      rw [hshape] at hvalid hm
      simp only [validName, Bool.and_eq_true, List.all_eq_true] at hvalid
      have hbyte := hvalid.2 nul hm
      revert hbyte
      decide
  refine ⟨wellFormedCommon_of_intended h.common hi.common, ?_, ?_, ?_, ?_, ?_, ?_⟩
  · rw [hi.rootfs, validPath_false, ← mountPath_text]
    refine ⟨by rw [mountPath_text]; exact hnul, cleanAbsolute_absolute _ hproper, ?_⟩
    rw [names_absolute _ hproper]
    exact List.append_ne_nil_of_right_ne_nil _ (by simp)
  · intro device hd
    rw [hi.overlayDevice] at hd
    obtain rfl := Option.some.inj hd
    split
    · decide
    · rename_i hne
      exact validPath_of_path _ (h.overlayDevice.resolve_left hne)
  · intro user hu
    rw [hi.user] at hu
    obtain ⟨declared, hdeclared, rfl⟩ := Option.map_eq_some_iff.mp hu
    exact wellFormedUser_of_accepted declared (h.common.user declared hdeclared)
  · rw [hi.diskMounts]
    exact fun target hm => validPath_of_path target (h.diskMounts target hm)
  · rw [hi.binds]
    intro bind hm
    obtain ⟨mount, hmount, rfl⟩ := List.mem_map.mp hm
    obtain ⟨hsource, htarget⟩ := h.mounts mount hmount
    exact ⟨validPath_of_path _ hsource, validPath_of_path _ htarget⟩
  · have htargets : decoded.mountTargets = process.mountTargets := by
      unfold SidecarProcess.mountTargets Process.mountTargets
      rw [hi.standardMounts, if_pos rfl, hi.diskMounts, hi.binds, List.map_map]
      rfl
    rw [htargets]
    exact h.targets

theorem wellFormedMain_of_intended {process : Sdk.Process} {decoded : MainProcess}
    (h : AcceptedMain process) (hi : IntendedMain process decoded) : WellFormedMain decoded := by
  refine ⟨wellFormedCommon_of_intended h.common hi.common, ?_⟩
  intro user hu
  rw [hi.user] at hu
  obtain ⟨declared, hdeclared, rfl⟩ := Option.map_eq_some_iff.mp hu
  exact wellFormedUser_of_accepted declared (h.common.user declared hdeclared)

/-! ### The whole declaration -/

theorem forall₂_imp_right {α β : Type} {R : α → β → Prop} {P : α → Prop} {Q : β → Prop}
    {xs : List α} {ys : List β} (h : List.Forall₂ R xs ys) (hall : ∀ x ∈ xs, P x)
    (himp : ∀ x y, P x → R x y → Q y) : ∀ y ∈ ys, Q y := by
  induction h with
  | nil => exact fun y hm => absurd hm List.not_mem_nil
  | cons hr _ ih =>
    rw [List.forall_mem_cons] at hall ⊢
    exact ⟨himp _ _ hall.1 hr, ih hall.2⟩

theorem intended_processes {spec : Sdk.Spec} {decoded : Campd.Spec} (h : Intended spec decoded) :
    List.Forall₂ IntendedCommon spec.processes decoded.processes := by
  have hsidecars : List.Forall₂ IntendedCommon spec.sidecars
      (decoded.sidecars.map (·.toCommonProcess)) := by
    rw [List.forall₂_map_right_iff]
    exact h.sidecars.imp fun _ _ hi => hi.common
  have hmain : List.Forall₂ IntendedCommon spec.main
      (decoded.main.map (·.toCommonProcess)) := by
    rw [List.forall₂_map_right_iff]
    exact h.main.imp fun _ _ hi => hi.common
  exact List.rel_append hsidecars hmain

theorem startupBudget_of_intended {process : Sdk.Process} {decoded : CommonProcess}
    (hi : IntendedCommon process decoded) :
    1000000 * (decoded.startupBudget : ℤ) = process.startupBudget.toInt := by
  have hkind := hi.kind
  have hprobe := hi.probe
  have hcompletion := hi.completion
  unfold CommonProcess.startupBudget Process.startupBudget
  by_cases hjob : process.kind = runToCompletion
  · rw [if_pos hjob] at hkind hcompletion ⊢
    obtain ⟨ms, hms, hexact⟩ := hcompletion
    rw [hkind, hms]
    exact hexact
  · rw [if_neg hjob] at hkind ⊢
    rw [hkind]
    cases hdeclared : process.probe with
    | none =>
      rw [hdeclared] at hprobe
      cases hd : decoded.readinessProbe with
      | none => rfl
      | some probe =>
        rw [hd] at hprobe
        cases hprobe
    | some declared =>
      rw [hdeclared] at hprobe
      cases hd : decoded.readinessProbe with
      | none =>
        rw [hd] at hprobe
        cases hprobe
      | some probe =>
        rw [hd] at hprobe
        cases hprobe with
        | some hintended => exact hintended.startup.trans (withDefaults_declared declared).1.symm

theorem sum_startupBudget {processes : List Sdk.Process} {decoded : List CommonProcess}
    (hi : List.Forall₂ IntendedCommon processes decoded) :
    1000000 * (((decoded.map (·.startupBudget)).sum : ℕ) : ℤ) =
      (processes.map fun process => process.startupBudget.toInt).sum := by
  induction hi with
  | nil => rfl
  | cons hhead _ ih =>
    have hfirst := startupBudget_of_intended hhead
    simp only [List.map_cons, List.sum_cons, Nat.cast_add]
    omega

theorem names_of_intended {processes : List Sdk.Process} {decoded : List CommonProcess}
    (hi : List.Forall₂ IntendedCommon processes decoded) :
    decoded.map (·.name) = processes.map (·.name) := by
  induction hi with
  | nil => rfl
  | cons hhead _ ih => rw [List.map_cons, List.map_cons, hhead.name, ih]

theorem service_of_intended {processes : List Sdk.Process} {decoded : List CommonProcess}
    (hi : List.Forall₂ IntendedCommon processes decoded)
    (h : ∃ process ∈ processes, process.kind ≠ runToCompletion) :
    ∃ process ∈ decoded, process.kind = .service := by
  induction hi with
  | nil =>
    obtain ⟨process, hm, -⟩ := h
    cases hm
  | cons hhead _ ih =>
    obtain ⟨process, hm, hkind⟩ := h
    rcases List.mem_cons.mp hm with rfl | hm
    · refine ⟨_, List.mem_cons_self, ?_⟩
      rw [hhead.kind, if_neg hkind]
    · obtain ⟨found, hfound, hservice⟩ := ih ⟨process, hm, hkind⟩
      exact ⟨found, List.mem_cons_of_mem _ hfound, hservice⟩

theorem wellFormed_of_intended {spec : Sdk.Spec} {decoded : Campd.Spec} (h : AcceptedSpec spec)
    (hcount : spec.processes.length ≤ maxEncodedSpecBytes) (hi : Intended spec decoded) :
    WellFormed decoded := by
  have hprocesses := intended_processes hi
  have hsum := sum_startupBudget hprocesses
  have hbudget := exact_budget spec h hcount
  refine ⟨Or.inr hi.version, ?_, ?_, ?_, service_of_intended hprocesses h.service, by omega⟩
  · exact forall₂_imp_right hi.sidecars h.sidecars fun _ _ => wellFormedSidecar_of_intended
  · exact forall₂_imp_right hi.main h.main fun _ _ => wellFormedMain_of_intended
  · rw [names_of_intended hprocesses]
    exact h.names

/-! ### Through the payload -/

/-- The outside decoders read back what the outside encoders wrote. -/
structure RoundTrips (decoders : Decoders) : Prop where
  base64 : ∀ bytes, decoders.decodeBase64 (Base64.encode bytes) = .ok bytes
  json : ∀ replacement value depth, depth ≤ 100 →
    Json.Within (fun s => Foundations.Utf8.valid s = true) SmallNumber depth value →
    decoders.parseJson (marshal replacement value) = .ok value

/-- The outside decoders read any texts of the outside encoders: strings as they were written, with
U+FFFD where they were no UTF-8. -/
structure Reads (decoders : Decoders) : Prop where
  base64 : ∀ bytes, decoders.decodeBase64 (Base64.encode bytes) = .ok bytes
  json : ∀ replacement value depth, depth ≤ 100 →
    Json.Within (fun _ => True) SmallNumber depth value →
    decoders.parseJson (marshal replacement value) = .ok (value.map Foundations.Utf8.replaced)

theorem Reads.roundTrips {decoders : Decoders} (h : Reads decoders) : RoundTrips decoders := by
  refine ⟨h.base64, fun replacement value depth hdepth hin => ?_⟩
  have hsame := Json.map_map_within id Foundations.Utf8.replaced id _ SmallNumber
    (fun _ hs => Foundations.Utf8.replaced_valid hs) depth value hin
  rw [Json.map_id] at hsame
  rw [h.json replacement value depth hdepth
    (Json.within_mono (fun _ _ => trivial) depth value hin), hsame]

/-- Everything `RenderStart` returned without an error tells about its input. -/
theorem renderStart_ok (replacement : Json.Replacement) (images : ImageSet) (spec : Sdk.Spec)
    (configuration : CustomConfiguration) (h : renderStart replacement images spec = .ok configuration) :
    ∃ resolved, Resolves images resolved ∧ resolveImageSet images = .ok resolved ∧
      AcceptedSpec spec ∧
      (∀ process ∈ spec.sidecars, resolved.sidecars.lookup process.name ≠ none) ∧
      (encodeSpec replacement spec resolved).length ≤ maxEncodedSpecBytes ∧
      configuration.env = [⟨Sdk.specEnvironment, encodeSpec replacement spec resolved⟩] := by
  simp only [renderStart, bind_eq_ok, exists_unit, mapError_eq_ok, forEach_eq_ok, rejectIf_eq_ok,
    Except.ok.injEq] at h
  obtain ⟨resolved, hresolved, hvalid, hknown, hsize, rfl⟩ := h
  refine ⟨resolved, resolveImageSet_ok images resolved hresolved, hresolved, validate_ok spec hvalid,
    ?_, Nat.le_of_not_lt hsize, rfl⟩
  intro process hm hnone
  exact hknown process hm (by rw [hnone]; rfl)

theorem mountPath_known {images : ImageSet} {resolved : ResolvedImageSet}
    (h : Resolves images resolved) (name : Bytes) (hknown : resolved.sidecars.lookup name ≠ none) :
    resolved.mountPath name = lit "/mnt/sandcamp-sidecars/" ++ name := by
  obtain ⟨image, -, -, hlookup, hpath⟩ := mountPath_resolved h name hknown
  unfold ResolvedImageSet.mountPath
  rw [hlookup, Option.map_some, Option.getD_some, hpath]

/-- The text of an accepted declaration is within the limits of the decoders. -/
theorem within_rendered {spec : Sdk.Spec} {resolved : ResolvedImageSet}
    (hutf8 : spec.Utf8) (haccepted : AcceptedSpec spec)
    (hrootfs : ∀ process ∈ spec.sidecars,
      resolved.mountPath process.name = lit "/mnt/sandcamp-sidecars/" ++ process.name) :
    Json.Within (fun s => Foundations.Utf8.valid s = true) SmallNumber 5
      (toRuntimeSpec spec resolved).json := by
  refine within_spec (fun s => Foundations.Utf8.valid s = true) Foundations.Utf8.valid_of_ascii spec
    resolved hutf8 fun process hm => ?_
  have hname := validName_of_pattern _ (haccepted.sidecars process hm).common.name
  have hroot : ∀ c ∈ lit "/mnt/sandcamp-sidecars/", c < 0x80 := ascii_of_all rfl
  rw [hrootfs process hm]
  refine Foundations.Utf8.valid_of_ascii _ fun b hb => ?_
  rcases List.mem_append.mp hb with hb | hb
  · exact hroot b hb
  · exact validName_ascii _ hname b hb

theorem decoded_of_rendered {decoders : Decoders} (htrip : RoundTrips decoders)
    {replacement : Json.Replacement} {images : ImageSet} {spec : Sdk.Spec} (hutf8 : spec.Utf8)
    {configuration : CustomConfiguration}
    (h : renderStart replacement images spec = .ok configuration) :
    ∃ payload decoded, configuration.env = [⟨Sdk.specEnvironment, payload⟩] ∧
      decode decoders payload = .ok decoded ∧ Intended spec decoded := by
  obtain ⟨resolved, hresolves, -, haccepted, hknown, hsize, henv⟩ :=
    renderStart_ok replacement images spec configuration h
  have hrootfs : ∀ process ∈ spec.sidecars,
      resolved.mountPath process.name = lit "/mnt/sandcamp-sidecars/" ++ process.name :=
    fun process hm => mountPath_known hresolves process.name (hknown process hm)
  obtain ⟨decoded, hdecoded, hintended⟩ := decodeSpec_json spec resolved
    (fun process hm => readable_of_accepted (haccepted.process process hm)) hrootfs
  have hcount := Nat.le_trans (processes_le_payload replacement spec resolved) hsize
  have hwellFormed := wellFormed_of_intended haccepted hcount hintended
  have hparse := htrip.json replacement _ 5 (by decide) (within_rendered hutf8 haccepted hrootfs)
  refine ⟨encodeSpec replacement spec resolved, decoded, henv, ?_, hintended⟩
  have hlimit : ¬maxEncodedBytes < (encodeSpec replacement spec resolved).length :=
    Nat.not_lt.mpr hsize
  simp only [decode, bind_eq_ok, exists_unit, rejectIf_eq_ok, mapError_eq_ok, okOr_eq_ok,
    Except.ok.injEq]
  exact ⟨hlimit, _, htrip.base64 _, _, hparse, decoded, hdecoded,
    (validate_eq_ok decoded).mpr hwellFormed, rfl⟩

/-- Every declaration `RenderStart` accepts reaches campd as it is intended. -/
theorem decode_rendered (decoders : Decoders) (htrip : RoundTrips decoders)
    (replacement : Json.Replacement) (images : ImageSet) (spec : Sdk.Spec) (hutf8 : spec.Utf8)
    (configuration : CustomConfiguration)
    (h : renderStart replacement images spec = .ok configuration) :
    (∃ payload decoded, configuration.env = [⟨Sdk.specEnvironment, payload⟩] ∧
      decode decoders payload = .ok decoded ∧ Intended spec decoded) ∧
    ∀ process ∈ spec.processes, (∃ kind, resolveProcessKind process.kind = .ok kind) ∧
      ∀ probe, process.probe = some probe → ∃ resolved, resolveProbe probe = .ok resolved := by
  refine ⟨decoded_of_rendered htrip hutf8 h, fun process hm => ?_⟩
  obtain ⟨resolved, -, -, haccepted, -⟩ := renderStart_ok replacement images spec configuration h
  have hkind := (haccepted.process process hm).kind
  refine ⟨⟨_, resolveProcessKind_readable process hkind⟩, fun probe hprobe => ?_⟩
  unfold AcceptedKind at hkind
  split at hkind
  · rw [hkind.1] at hprobe
    cases hprobe
  · exact ⟨_, (resolveProbe_eq_ok probe _).mpr ⟨hkind.2.2 probe hprobe, rfl⟩⟩

/-! ### Decoders that read compact texts -/

/-- Decoders for exactly the texts the encoders write. -/
def compactDecoders : Decoders where
  decodeBase64 text := okOr (Base64.decode text) (lit "invalid text")
  parseJson text :=
    (okOr (Json.readText text) (lit "expected value")).map (Json.map Foundations.Utf8.repair)
  schemaError _ := lit "invalid type"

theorem compactDecoders_reads : Reads compactDecoders := by
  refine ⟨fun bytes => ?_, fun replacement value depth _ h => ?_⟩
  · show okOr (Base64.decode (Base64.encode bytes)) _ = _
    rw [Base64.decode_encode]
    rfl
  · have hscrubbed : Json.Within Json.Scrubbed SmallNumber depth
        (value.map replacement.pieces) := by
      rw [Json.within_map]
      exact Json.within_mono (fun s _ => replacement.scrubbed_pieces s) depth value h
    show (okOr (Json.readText (marshal replacement value)) _).map _ = _
    unfold marshal
    rw [Json.readText_write SmallNumber depth _ hscrubbed]
    show Except.ok _ = _
    rw [Json.map_map_within replacement.pieces Foundations.Utf8.repair Foundations.Utf8.replaced _
      SmallNumber (fun s _ => replacement.repair_pieces s) depth value h]

theorem compactDecoders_roundTrips : RoundTrips compactDecoders := compactDecoders_reads.roundTrips

def webImages : ImageSet where
  sandcampRuntime := ⟨lit "registry/sandcamp:1", imageRegistryPersonal⟩
  sidecars := [⟨lit "proxy", lit "registry/proxy:1", imageRegistryEnterprise⟩]

def webProxy : Sdk.Process where
  name := lit "proxy"
  kind := []
  command := [lit "/bin/proxy", lit "--verbose"]
  env := ∅
  workDir := []
  user := some ⟨[], 0, 0⟩
  expose := []
  overlayDevice := []
  mounts := [⟨lit "/data", lit "/data", true⟩]
  diskMounts := [lit "/var/cache"]
  probe := none
  timeout := 0

def webMain : Sdk.Process where
  name := lit "web"
  kind := service
  command := [lit "/bin/web"]
  env := (∅ : Environment).insert (lit "MODE") (lit "demo")
  workDir := lit "/srv"
  user := some ⟨lit "www", 0, 0⟩
  expose := [8080]
  overlayDevice := []
  mounts := []
  diskMounts := []
  probe := some ⟨lit "/health", 8080, 0, 0, 0, 0, 0⟩
  timeout := 0

/-- A probed service behind a proxy with a private directory. -/
def webSpec : Sdk.Spec := ⟨[webProxy], [webMain]⟩

theorem webSpec_utf8 : webSpec.Utf8 := by
  intro process hm
  have hcases : process = webProxy ∨ process = webMain := by
    simpa [webSpec, Sdk.Spec.processes] using hm
  rcases hcases with rfl | rfl
  · refine ⟨by decide, by decide, by decide +kernel, by decide, ?_, by decide, by decide,
      by decide, ?_⟩
    · intro user hu
      obtain rfl := Option.some.inj hu
      decide
    · intro probe hp
      cases hp
  · refine ⟨by decide, by decide, by decide +kernel, by decide, ?_, by decide, by decide,
      by decide, ?_⟩
    · intro user hu
      obtain rfl := Option.some.inj hu
      decide
    · intro probe hp
      obtain rfl := Option.some.inj hp
      decide

theorem decode_rendered_web : ∃ configuration,
    renderStart .literal webImages webSpec = .ok configuration ∧
    (∃ payload decoded, configuration.env = [⟨Sdk.specEnvironment, payload⟩] ∧
      decode compactDecoders payload = .ok decoded ∧ Intended webSpec decoded) ∧
    ∀ process ∈ webSpec.processes, (∃ kind, resolveProcessKind process.kind = .ok kind) ∧
      ∀ probe, process.probe = some probe → ∃ resolved, resolveProbe probe = .ok resolved := by
  have hrender : (renderStart .literal webImages webSpec).isOk = true := by decide +kernel
  cases h : renderStart .literal webImages webSpec with
  | error e =>
    rw [h] at hrender
    cases hrender
  | ok configuration =>
    exact ⟨configuration, rfl, decode_rendered compactDecoders compactDecoders_roundTrips .literal
      webImages webSpec webSpec_utf8 configuration h⟩

end Sandcamp.Agreement
