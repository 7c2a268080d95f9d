import Sandcamp.Sandrun.Accepted
import Sandcamp.Sandrun.Mounts
import Sandcamp.Sandrun.Passwd
import Sandcamp.Sandrun.Settings

/-!
# Every argument vector (lib.rs:256-464)

The loop reads settings until it meets `--`, whatever the words are: `parseOptions_reads`
takes a run of it apart. It never looks behind the vector, and a configuration that comes
out has passed every check, so that nothing that `run` expects of it is missing.
-/

namespace Sandcamp.Sandrun
open Foundations Foundations.UnixPath

def valueOptions : List Bytes :=
  [lit "--rootfs", lit "--overlay-device", lit "--overlay-id", lit "--workdir", lit "--user",
    lit "--uid", lit "--gid", lit "--disk-mount", lit "--tmpfs"]

/-- How many values an option takes. -/
def arity (option : Bytes) : Option ℕ :=
  if option ∈ valueOptions then some 1
  else if option = lit "--standard-mounts" then some 0
  else if option = lit "--bind" ∨ option = lit "--ro-bind" then some 2
  else none

/-- The command stands behind the first `--` that is not a value of an option. -/
inductive Separated : List Bytes → List Bytes → Prop
  | separator (command : List Bytes) : Separated (lit "--" :: command) command
  | option {word : Bytes} {values rest command : List Bytes} :
      arity word = some values.length → Separated rest command →
      Separated (word :: (values ++ rest)) command

theorem Separated.unique {arguments command command' : List Bytes}
    (h : Separated arguments command) (h' : Separated arguments command') :
    command = command' := by
  have hseparator : arity (lit "--") = none := by decide +kernel
  induction h with
  | separator command =>
    generalize hwords : lit "--" :: command = words at h'
    cases h' with
    | separator _ => exact (List.cons.inj hwords).2
    | option harity _ =>
      obtain ⟨rfl, -⟩ := List.cons.inj hwords
      rw [hseparator] at harity
      cases harity
  | @option word values rest command harity _ ih =>
    generalize hwords : word :: (values ++ rest) = words at h'
    cases h' with
    | separator _ =>
      obtain ⟨rfl, -⟩ := List.cons.inj hwords
      rw [hseparator] at harity
      cases harity
    | @option word' values' rest' _ harity' hrest' =>
      obtain ⟨rfl, htail⟩ := List.cons.inj hwords
      have hlength : values.length = values'.length :=
        Option.some.inj (harity.symm.trans harity')
      obtain ⟨-, rfl⟩ := List.append_inj htail hlength
      exact ih hrest'

theorem arity_option (setting : Setting) :
    arity setting.option = some setting.values.length := by
  have hother : arity (lit "--standard-mounts") = some 0 ∧ arity (lit "--bind") = some 2 ∧
      arity (lit "--ro-bind") = some 2 := by decide +kernel
  cases setting with
  | bind mount =>
    obtain ⟨source, target, readonly⟩ := mount
    cases readonly with
    | false => exact hother.2.1
    | true => exact hother.2.2
  | standardMounts => exact hother.1
  | _ =>
    apply if_pos
    simp [Setting.option, valueOptions]

theorem separated_settings (settings : List Setting) (command : List Bytes) :
    Separated (settings.flatMap Setting.arguments ++ lit "--" :: command) command := by
  induction settings with
  | nil => exact .separator command
  | cons setting settings ih =>
    rw [List.flatMap_cons, List.append_assoc]
    exact .option (arity_option setting) ih

/-! ### One option -/

variable {arguments : List Bytes} {index : ℕ} {options options' : Options}

theorem drop_of_getElem? {word : Bytes} (h : arguments[index]? = some word) :
    arguments.drop index = word :: arguments.drop (index + 1) := by
  obtain ⟨hindex, rfl⟩ := List.getElem?_eq_some_iff.mp h
  exact List.drop_eq_getElem_cons hindex

theorem pathValue_eq_ok {option value : Bytes} {next : ℕ} :
    pathValue arguments index option = .ok (next, value) ↔
      next = index + 1 ∧ arguments[index + 1]? = some value := by
  simp only [pathValue, bind_eq_ok, okOr_eq_ok, Except.ok.injEq, Prod.mk.injEq]
  constructor
  · rintro ⟨found, hfound, rfl, rfl⟩
    exact ⟨rfl, hfound⟩
  · rintro ⟨rfl, hvalue⟩
    exact ⟨value, hvalue, rfl, rfl⟩

/-- The word at the index and the values behind it are read as this setting. -/
structure ReadsSetting (arguments : List Bytes) (index : ℕ) (options : Options) (word : Bytes)
    (next : ℕ) (options' : Options) (setting : Setting) : Prop where
  option : setting.option = word
  moved : next = index + setting.values.length
  values : arguments.drop (index + 1) = setting.values ++ arguments.drop (next + 1)
  effect : options.set setting = .ok options'

theorem readsSetting_value {word value : Bytes} {setting : Setting} (hword : setting.option = word)
    (hvalues : setting.values = [value]) (hat : arguments[index + 1]? = some value)
    (hset : options.set setting = .ok options') :
    ReadsSetting arguments index options word (index + 1) options' setting := by
  refine ⟨hword, ?_, ?_, hset⟩
  · rw [hvalues]
    rfl
  · rw [hvalues, drop_of_getElem? hat]
    rfl

theorem parseUser_reads {next : ℕ} (h : parseUser arguments index options = .ok (next, options')) :
    ∃ setting, ReadsSetting arguments index options (lit "--user") next options' setting := by
  obtain ⟨⟨index', value⟩, hvalue, h⟩ := (bind_eq_ok _ _ _).mp h
  obtain ⟨rfl, hat⟩ := pathValue_eq_ok.mp hvalue
  simp only [bind_eq_ok, rejectIf_eq_ok, expect_eq_ok, exists_unit, Except.ok.injEq,
    Prod.mk.injEq, hat, Option.some.injEq, exists_eq_left', Bool.not_eq_false] at h
  obtain ⟨hname, name, hstr, hfresh, rfl, rfl⟩ := h
  rw [toStr_of_validUserName value hname] at hstr
  obtain rfl := Option.some.inj hstr
  refine ⟨.user value, readsSetting_value rfl rfl hat ?_⟩
  simp only [Options.set, bind_eq_ok, rejectIf_eq_ok, exists_unit]
  exact ⟨by simpa using hname, hfresh, trivial⟩

theorem parseId_reads {next : ℕ} {option : Bytes}
    (hoption : option = lit "--uid" ∨ option = lit "--gid")
    (h : parseId arguments index options option = .ok (next, options')) :
    ∃ setting, ReadsSetting arguments index options option next options' setting := by
  obtain ⟨⟨index', value⟩, hvalue, h⟩ := (bind_eq_ok _ _ _).mp h
  obtain ⟨rfl, hat⟩ := pathValue_eq_ok.mp hvalue
  obtain ⟨id, hid, h⟩ := (bind_eq_ok _ _ _).mp h
  rw [mapError_eq_ok] at hid
  by_cases huid : option = lit "--uid"
  · subst huid
    rw [if_pos rfl] at h
    simp only [bind_eq_ok, rejectIf_eq_ok, exists_unit, Except.ok.injEq, Prod.mk.injEq] at h
    obtain ⟨hfresh, rfl, rfl⟩ := h
    refine ⟨.uid value, readsSetting_value rfl rfl hat ?_⟩
    simp only [Options.set, bind_eq_ok, rejectIf_eq_ok, exists_unit]
    exact ⟨id, hid, hfresh, rfl⟩
  · obtain rfl := hoption.resolve_left huid
    rw [if_neg huid] at h
    simp only [bind_eq_ok, rejectIf_eq_ok, exists_unit, Except.ok.injEq, Prod.mk.injEq] at h
    obtain ⟨hfresh, rfl, rfl⟩ := h
    refine ⟨.gid value, readsSetting_value rfl rfl hat ?_⟩
    simp only [Options.set, bind_eq_ok, rejectIf_eq_ok, exists_unit]
    exact ⟨id, hid, hfresh, rfl⟩

theorem parseBind_reads {next : ℕ} {option : Bytes}
    (hoption : option = lit "--bind" ∨ option = lit "--ro-bind")
    (h : parseBind arguments index options option = .ok (next, options')) :
    ∃ setting, ReadsSetting arguments index options option next options' setting := by
  obtain ⟨⟨index', source⟩, hsource, h⟩ := (bind_eq_ok _ _ _).mp h
  obtain ⟨rfl, hat⟩ := pathValue_eq_ok.mp hsource
  obtain ⟨⟨index', target⟩, htarget, h⟩ := (bind_eq_ok _ _ _).mp h
  obtain ⟨rfl, hat'⟩ := pathValue_eq_ok.mp htarget
  obtain ⟨rfl, rfl⟩ := Prod.mk.inj (Except.ok.inj h)
  have hword : (Setting.bind ⟨source, target, decide (option = lit "--ro-bind")⟩).option =
      option := by
    rcases hoption with rfl | rfl
    · simp [Setting.option, lit_inj]
    · simp [Setting.option]
  refine ⟨.bind ⟨source, target, decide (option = lit "--ro-bind")⟩, hword, rfl, ?_, rfl⟩
  rw [drop_of_getElem? hat, drop_of_getElem? hat']
  rfl

theorem valueOption_reads {next : ℕ} (setting : Bytes → Setting) (f : Bytes → Options)
    (option : Bytes) (hsetting : ∀ value, (setting value).option = option ∧
      (setting value).values = [value] ∧ options.set (setting value) = .ok (f value))
    (h : (do
      let (index, value) ← pathValue arguments index option
      .ok (index, f value)) = .ok (next, options')) :
    ∃ setting, ReadsSetting arguments index options option next options' setting := by
  obtain ⟨⟨index', value⟩, hvalue, h⟩ := (bind_eq_ok _ _ _).mp h
  obtain ⟨rfl, hat⟩ := pathValue_eq_ok.mp hvalue
  obtain ⟨rfl, rfl⟩ := Prod.mk.inj (Except.ok.inj h)
  obtain ⟨hword, hvalues, hset⟩ := hsetting value
  exact ⟨setting value, readsSetting_value hword hvalues hat hset⟩

theorem parseOption_reads {word : Bytes} {next : ℕ}
    (h : parseOption arguments index options word = .ok (next, options')) :
    ∃ setting, ReadsSetting arguments index options word next options' setting := by
  unfold parseOption at h
  by_cases hrootfs : word = lit "--rootfs"
  · rw [if_pos hrootfs] at h
    subst hrootfs
    exact valueOption_reads .rootfs _ _ (fun _ => ⟨rfl, rfl, rfl⟩) h
  rw [if_neg hrootfs] at h
  by_cases hdevice : word = lit "--overlay-device"
  · rw [if_pos hdevice] at h
    subst hdevice
    exact valueOption_reads .overlayDevice _ _ (fun _ => ⟨rfl, rfl, rfl⟩) h
  rw [if_neg hdevice] at h
  by_cases hid : word = lit "--overlay-id"
  · rw [if_pos hid] at h
    subst hid
    exact valueOption_reads .overlayId _ _ (fun _ => ⟨rfl, rfl, rfl⟩) h
  rw [if_neg hid] at h
  by_cases hworkdir : word = lit "--workdir"
  · rw [if_pos hworkdir] at h
    subst hworkdir
    exact valueOption_reads .workdir _ _ (fun _ => ⟨rfl, rfl, rfl⟩) h
  rw [if_neg hworkdir] at h
  by_cases huser : word = lit "--user"
  · rw [if_pos huser] at h
    subst huser
    exact parseUser_reads h
  rw [if_neg huser] at h
  by_cases hids : word = lit "--uid" ∨ word = lit "--gid"
  · rw [if_pos hids] at h
    exact parseId_reads hids h
  rw [if_neg hids] at h
  by_cases hstandard : word = lit "--standard-mounts"
  · rw [if_pos hstandard] at h
    obtain ⟨rfl, rfl⟩ := Prod.mk.inj (Except.ok.inj h)
    exact ⟨.standardMounts, hstandard.symm, rfl, rfl, rfl⟩
  rw [if_neg hstandard] at h
  by_cases hdisk : word = lit "--disk-mount"
  · rw [if_pos hdisk] at h
    subst hdisk
    exact valueOption_reads .diskMount _ _ (fun _ => ⟨rfl, rfl, rfl⟩) h
  rw [if_neg hdisk] at h
  by_cases hbind : word = lit "--bind" ∨ word = lit "--ro-bind"
  · rw [if_pos hbind] at h
    exact parseBind_reads hbind h
  rw [if_neg hbind] at h
  by_cases htmpfs : word = lit "--tmpfs"
  · rw [if_pos htmpfs] at h
    subst htmpfs
    exact valueOption_reads .tmpfs _ _ (fun _ => ⟨rfl, rfl, rfl⟩) h
  rw [if_neg htmpfs] at h
  cases h

theorem noPanic_pathValue (option : Bytes) : NoPanic (pathValue arguments index option) :=
  noPanic_bind _ _ (noPanic_okOr _ _) fun _ _ => noPanic_ok _

theorem noPanic_parseUser : NoPanic (parseUser arguments index options) := by
  apply noPanic_bind _ _ (noPanic_pathValue _)
  rintro ⟨index', value⟩ hvalue
  obtain ⟨rfl, hat⟩ := pathValue_eq_ok.mp hvalue
  apply noPanic_bind _ _ (noPanic_rejectIf _ _)
  intro _ hname
  rw [rejectIf_eq_ok, Bool.not_eq_false] at hname
  apply noPanic_bind _ _ (noPanic_expect (Option.isSome_of_eq_some hat))
  intro again hagain
  rw [expect_eq_ok, hat] at hagain
  obtain rfl := Option.some.inj hagain
  have hstr : (toStr value).isSome := Option.isSome_of_eq_some (toStr_of_validUserName value hname)
  apply noPanic_bind _ _ (noPanic_expect hstr)
  intro name _
  exact noPanic_bind _ _ (noPanic_rejectIf _ _) fun _ _ => noPanic_ok _

theorem noPanic_parseId (option : Bytes) : NoPanic (parseId arguments index options option) := by
  apply noPanic_bind _ _ (noPanic_pathValue _)
  rintro ⟨index', value⟩ -
  apply noPanic_bind _ _ (noPanic_mapError _)
  intro id _
  apply noPanic_ite
  · exact noPanic_bind _ _ (noPanic_rejectIf _ _) fun _ _ => noPanic_ok _
  · exact noPanic_bind _ _ (noPanic_rejectIf _ _) fun _ _ => noPanic_ok _

theorem noPanic_valueOption (option : Bytes)
    (f : ℕ × Bytes → Except (Failure ConfigError) (ℕ × Options)) (hf : ∀ found, NoPanic (f found)) :
    NoPanic (pathValue arguments index option >>= f) :=
  noPanic_bind _ _ (noPanic_pathValue option) fun found _ => hf found

theorem noPanic_parseOption (word : Bytes) :
    NoPanic (parseOption arguments index options word) := by
  unfold parseOption
  apply noPanic_ite (noPanic_valueOption _ _ fun _ => noPanic_ok _)
  apply noPanic_ite (noPanic_valueOption _ _ fun _ => noPanic_ok _)
  apply noPanic_ite (noPanic_valueOption _ _ fun _ => noPanic_ok _)
  apply noPanic_ite (noPanic_valueOption _ _ fun _ => noPanic_ok _)
  apply noPanic_ite noPanic_parseUser
  apply noPanic_ite (noPanic_parseId word)
  apply noPanic_ite (noPanic_ok _)
  apply noPanic_ite (noPanic_valueOption _ _ fun _ => noPanic_ok _)
  apply noPanic_ite
  · exact noPanic_valueOption _ _ fun _ => noPanic_valueOption _ _ fun _ => noPanic_ok _
  exact noPanic_ite (noPanic_valueOption _ _ fun _ => noPanic_ok _) (noPanic_error _)

/-! ### The loop -/

/-- With as many rounds as arguments are left the loop has ended by itself. -/
theorem parseOptions_more (fuel extra : ℕ) (hfuel : arguments.length ≤ index + fuel) :
    parseOptions arguments (fuel + extra) index options =
      parseOptions arguments fuel index options := by
  induction fuel generalizing index options with
  | zero =>
    have hend : ¬index < arguments.length := by omega
    cases extra with
    | zero => rfl
    | succ extra =>
      rw [Nat.zero_add, parseOptions.eq_2, if_neg hend]
      rfl
  | succ fuel ih =>
    rw [Nat.add_right_comm, parseOptions, parseOptions]
    by_cases hend : index < arguments.length
    · rw [if_pos hend, if_pos hend]
      congr 1
      funext word
      by_cases hseparator : word = lit "--"
      · rw [if_pos hseparator, if_pos hseparator]
      · rw [if_neg hseparator, if_neg hseparator]
        cases hread : parseOption arguments index options word with
        | error e => rfl
        | ok result =>
          obtain ⟨next, options'⟩ := result
          obtain ⟨setting, hsetting⟩ := parseOption_reads hread
          have hmoved := hsetting.moved
          exact ih (by omega)
    · rw [if_neg hend, if_neg hend]

theorem noPanic_parseOptions (fuel : ℕ) : NoPanic (parseOptions arguments fuel index options) := by
  induction fuel generalizing index options with
  | zero => exact noPanic_ok _
  | succ fuel ih =>
    rw [parseOptions]
    by_cases hend : index < arguments.length
    · rw [if_pos hend]
      have hat : arguments[index]?.isSome := by
        rw [List.getElem?_eq_getElem hend]
        rfl
      apply noPanic_bind _ _ (noPanic_expect hat)
      intro word _
      apply noPanic_ite (noPanic_ok _)
      exact noPanic_bind _ _ (noPanic_parseOption word) fun _ _ => ih
    · rw [if_neg hend]
      exact noPanic_ok _

/-- What the loop has read are settings, and the separator stands behind the last one. -/
theorem parseOptions_reads (fuel : ℕ) {separator : ℕ}
    (h : parseOptions arguments fuel index options = .ok (options', some separator)) :
    ∃ settings : List Setting, options.setAll settings = .ok options' ∧
      arguments.drop index = settings.flatMap Setting.arguments ++
        lit "--" :: arguments.drop (separator + 1) := by
  induction fuel generalizing index options with
  | zero => cases h
  | succ fuel ih =>
    rw [parseOptions] at h
    by_cases hend : index < arguments.length
    · rw [if_pos hend] at h
      obtain ⟨word, hword, h⟩ := (bind_eq_ok _ _ _).mp h
      rw [expect_eq_ok] at hword
      by_cases hseparator : word = lit "--"
      · rw [if_pos hseparator] at h
        obtain ⟨rfl, hat⟩ := Prod.mk.inj (Except.ok.inj h)
        obtain rfl := Option.some.inj hat
        refine ⟨[], rfl, ?_⟩
        rw [drop_of_getElem? hword, hseparator]
        rfl
      · rw [if_neg hseparator] at h
        obtain ⟨⟨next, options₁⟩, hread, h⟩ := (bind_eq_ok _ _ _).mp h
        obtain ⟨setting, hsetting⟩ := parseOption_reads hread
        obtain ⟨settings, hall, hdrop⟩ := ih h
        refine ⟨setting :: settings, ?_, ?_⟩
        · exact (foldlM_cons_eq_ok _ _ _ _ _).mpr ⟨options₁, hsetting.effect, hall⟩
        · rw [drop_of_getElem? hword, hsetting.values, hdrop, List.flatMap_cons, Setting.arguments,
            hsetting.option, List.append_assoc]
          rfl
    · rw [if_neg hend] at h
      cases h

theorem noPanic_validatePath (field path : Bytes) (root : Bool) :
    NoPanic (validatePath field path root) := noPanic_rejectIf _ _

theorem noPanic_finishArgs (options : Options) (command : List Bytes) :
    NoPanic (finishArgs options command) := by
  apply noPanic_bind _ _ (noPanic_rejectIf _ _)
  intro _ hcommand
  rw [rejectIf_eq_ok] at hcommand
  apply noPanic_bind _ _ (noPanic_okOr _ _)
  intro rootfs _
  apply noPanic_bind _ _ (noPanic_validatePath _ _ _)
  intro _ _
  apply noPanic_bind _ _ (noPanic_forEach _ _ fun _ => noPanic_validatePath _ _ _)
  intro _ _
  apply noPanic_bind _ _ (noPanic_forEach _ _ fun _ => noPanic_rejectIf _ _)
  intro _ _
  apply noPanic_bind _ _ (noPanic_rejectIf _ _)
  intro _ _
  apply noPanic_bind _ _ (noPanic_rejectIf _ _)
  intro _ _
  apply noPanic_bind _ _ (noPanic_validatePath _ _ _)
  intro _ _
  have hfirst : command[0]?.isSome := by
    cases command with
    | nil => exact absurd rfl hcommand
    | cons executable rest => rfl
  apply noPanic_bind _ _ (noPanic_expect hfirst)
  intro executable _
  apply noPanic_bind _ _ (noPanic_validatePath _ _ _)
  intro _ _
  apply noPanic_bind _ _ (noPanic_forEach _ _ fun _ => noPanic_validatePath _ _ _)
  intro _ _
  apply noPanic_bind _ _ (noPanic_forEach _ _ fun _ =>
    noPanic_bind _ _ (noPanic_validatePath _ _ _) fun _ _ => noPanic_validatePath _ _ _)
  intro _ _
  apply noPanic_bind _ _ (noPanic_forEach _ _ fun _ => noPanic_validatePath _ _ _)
  intro _ _
  apply noPanic_bind _ _ (noPanic_mapError _)
  intro _ _
  exact noPanic_bind _ _ (noPanic_mapError _) fun _ _ => noPanic_ok _

theorem separator_lt {fuel separator : ℕ}
    (h : parseOptions arguments fuel index options = .ok (options', some separator)) :
    separator < arguments.length := by
  induction fuel generalizing index options with
  | zero => cases h
  | succ fuel ih =>
    rw [parseOptions] at h
    by_cases hend : index < arguments.length
    · rw [if_pos hend] at h
      obtain ⟨word, -, h⟩ := (bind_eq_ok _ _ _).mp h
      by_cases hseparator : word = lit "--"
      · rw [if_pos hseparator] at h
        obtain rfl := Option.some.inj (Prod.mk.inj (Except.ok.inj h)).2
        exact hend
      · rw [if_neg hseparator] at h
        obtain ⟨found, -, h⟩ := (bind_eq_ok _ _ _).mp h
        exact ih h
    · rw [if_neg hend] at h
      cases h

theorem noPanic_parseArgs (arguments : List Bytes) : NoPanic (parseArgs arguments) := by
  apply noPanic_bind _ _ (noPanic_parseOptions arguments.length)
  rintro ⟨options, separator⟩ hoptions
  apply noPanic_bind _ _ (noPanic_okOr _ _)
  intro separator hseparator
  obtain rfl := (okOr_eq_ok _ _ _).mp hseparator
  have hinside := separator_lt hoptions
  have hslice : sliceFrom arguments (separator + 1) =
      (.ok (arguments.drop (separator + 1)) : Except (Failure ConfigError) _) :=
    (sliceFrom_eq_ok _ _ _).mpr ⟨hinside, rfl⟩
  apply noPanic_bind
  · rw [hslice]
    exact noPanic_ok _
  · intro command _
    exact noPanic_finishArgs options command

/-! ### What comes out -/

theorem parseArgs_reads {config : Config} (h : parseArgs arguments = .ok config) :
    ∃ settings options command, Options.initial.setAll settings = .ok options ∧
      arguments = settings.flatMap Setting.arguments ++ lit "--" :: command ∧
      finishArgs options command = .ok config := by
  obtain ⟨⟨options, found⟩, hoptions, hrest⟩ := (bind_eq_ok _ _ _).mp h
  obtain ⟨separator, hseparator, hrest⟩ := (bind_eq_ok _ _ _).mp hrest
  rw [okOr_eq_ok] at hseparator
  obtain ⟨command, hcommand, hfinish⟩ := (bind_eq_ok _ _ _).mp hrest
  obtain ⟨-, hslice⟩ := (sliceFrom_eq_ok _ _ _).mp hcommand
  rw [hseparator] at hoptions
  obtain ⟨settings, hall, hwords⟩ := parseOptions_reads arguments.length hoptions
  rw [List.drop_zero, hslice] at hwords
  exact ⟨settings, options, command, hall, hwords, hfinish⟩

/-- An id that no account may have. -/
def overflowId : ℕ := 2 ^ 32 - 1

theorem parseUserId_ne {option value : Bytes} {id : UInt32}
    (h : parseUserId option value = .ok id) : id.toNat ≠ overflowId := by
  unfold parseUserId at h
  rw [okOr_eq_ok, Option.map_eq_some_iff] at h
  obtain ⟨n, hn, rfl⟩ := h
  rw [Option.filter_eq_some_iff] at hn
  obtain ⟨hparsed, hne⟩ := hn
  obtain ⟨text, -, hnumber⟩ := Option.bind_eq_some_iff.mp hparsed
  rw [UInt32.toNat_ofNat_of_lt' (parseUnsigned_lt hnumber)]
  exact of_decide_eq_true hne

/-- The ids that are set are ones an account may have. -/
def Options.IdsValid (options : Options) : Prop :=
  (∀ id, options.uid = some id → id.toNat ≠ overflowId) ∧
    ∀ id, options.gid = some id → id.toNat ≠ overflowId

theorem idsValid_set {setting : Setting} (h : options.IdsValid)
    (hset : options.set setting = .ok options') : options'.IdsValid := by
  cases setting with
  | uid value =>
    simp only [Options.set, bind_eq_ok, rejectIf_eq_ok, exists_unit, Except.ok.injEq] at hset
    obtain ⟨id, hid, -, rfl⟩ := hset
    refine ⟨fun other hother => ?_, h.2⟩
    rw [← Option.some.inj hother]
    exact parseUserId_ne hid
  | gid value =>
    simp only [Options.set, bind_eq_ok, rejectIf_eq_ok, exists_unit, Except.ok.injEq] at hset
    obtain ⟨id, hid, -, rfl⟩ := hset
    refine ⟨h.1, fun other hother => ?_⟩
    rw [← Option.some.inj hother]
    exact parseUserId_ne hid
  | user name =>
    simp only [Options.set, bind_eq_ok, rejectIf_eq_ok, exists_unit, Except.ok.injEq] at hset
    obtain ⟨-, -, rfl⟩ := hset
    exact h
  | rootfs path => exact Except.ok.inj hset ▸ h
  | overlayDevice path => exact Except.ok.inj hset ▸ h
  | overlayId id => exact Except.ok.inj hset ▸ h
  | workdir path => exact Except.ok.inj hset ▸ h
  | standardMounts => exact Except.ok.inj hset ▸ h
  | diskMount target => exact Except.ok.inj hset ▸ h
  | bind mount => exact Except.ok.inj hset ▸ h
  | tmpfs target => exact Except.ok.inj hset ▸ h

theorem idsValid_setAll (settings : List Setting) (h : options.IdsValid)
    (hset : options.setAll settings = .ok options') : options'.IdsValid := by
  induction settings generalizing options with
  | nil =>
    obtain rfl := Except.ok.inj hset
    exact h
  | cons setting settings ih =>
    obtain ⟨next, hfirst, hrest⟩ := (foldlM_cons_eq_ok _ _ _ _ _).mp hset
    exact ih (idsValid_set h hfirst) hrest

/-- A clean absolute path other than `/`. -/
def BelowRoot (path : Bytes) : Prop := cleanAbsolute path = true ∧ names path ≠ []

structure Config.Accepted (config : Config) : Prop where
  command : ∃ executable rest, config.command = executable :: rest ∧ BelowRoot executable
  workdir : cleanAbsolute config.workdir = true
  rootfs : BelowRoot config.rootfs
  device : ∀ device, config.overlayDevice = some device → BelowRoot device
  device_id : config.overlayDevice.isSome → config.overlayId.isSome
  id_length : ∀ id, config.overlayId = some id → 1 ≤ id.length ∧ id.length ≤ 256
  disk_device : config.diskMounts ≠ [] → config.overlayDevice.isSome
  disk : ∀ target ∈ config.diskMounts, BelowRoot target
  bind : ∀ bind ∈ config.binds, BelowRoot bind.source ∧ BelowRoot bind.target
  tmpfs : ∀ target ∈ config.tmpfs, BelowRoot target
  targets : Unnested ((mountTargets config.standardMounts config.diskMounts config.binds
    config.tmpfs).map names)
  ids : ∀ uid gid, config.user = some (.numeric uid gid) →
    uid.toNat ≠ overflowId ∧ gid.toNat ≠ overflowId

theorem numeric_of_combineUser {name : Option Bytes} {uid gid : Option UInt32} {u g : UInt32}
    (h : combineUser name uid gid = .ok (some (.numeric u g))) : uid = some u ∧ gid = some g := by
  cases name with
  | some name => cases uid <;> cases gid <;> cases h
  | none =>
    cases uid with
    | none => cases gid <;> cases h
    | some uid =>
      cases gid with
      | none => cases h
      | some gid =>
        cases h
        exact ⟨rfl, rfl⟩

theorem accepted_config {options : Options} {command : List Bytes} {config : Config}
    (hids : options.IdsValid) (h : finishArgs options command = .ok config) :
    config.Accepted ∧ config.command = command := by
  obtain ⟨rootfs, user, husable, rfl⟩ := (finishArgs_eq_ok _ _ _).mp h
  have hbelow : ∀ path, cleanPath path false = true → BelowRoot path := fun path hpath =>
    (cleanPath_false path).mp hpath
  refine ⟨⟨?_, ?_, ?_, ?_, ?_, ?_, ?_, ?_, ?_, ?_, ?_, ?_⟩, rfl⟩
  · obtain ⟨executable, rest, hcommand, hclean⟩ := husable.executable
    exact ⟨executable, rest, hcommand, hbelow _ hclean⟩
  · exact cleanAbsolute_of_cleanPath _ true husable.workdir
  · exact hbelow _ husable.rootfs_clean
  · exact fun device hdevice => hbelow _ (husable.device_clean device hdevice)
  · exact husable.device_id
  · intro id hid
    obtain ⟨hne, hlength⟩ := husable.id_length id hid
    exact ⟨List.length_pos_iff.mpr hne, hlength⟩
  · exact husable.disk_device
  · exact fun target ht => hbelow _ (husable.disk_clean target ht)
  · intro mount hm
    obtain ⟨hsource, htarget⟩ := husable.bind_clean mount hm
    exact ⟨hbelow _ hsource, hbelow _ htarget⟩
  · exact fun target ht => hbelow _ (husable.tmpfs_clean target ht)
  · exact husable.targets
  · intro uid gid huser
    have hcombined := husable.user_given
    rw [show user = some (.numeric uid gid) from huser] at hcombined
    obtain ⟨huid, hgid⟩ := numeric_of_combineUser hcombined
    exact ⟨hids.1 uid huid, hids.2 gid hgid⟩

/-- Neither the overlay id nor the command is missing when `run` expects it. -/
theorem unpanicked_prepareOperations {config : Config} (h : config.Accepted) (host : Host)
    (sha256 : Bytes → Bytes) (rootfs lower : Bytes) (overlayBase : Position) :
    Unpanicked (prepareOperations host sha256 rootfs lower overlayBase config) := by
  apply unpanicked_bind _ _ (unpanicked_adaptExcept _)
  intro _
  apply unpanicked_bind _ _ (unpanicked_adaptExcept _)
  intro _
  apply unpanicked_bind
  · apply unpanicked_reading
    intro _
    by_cases hdisk : config.diskMounts = []
    · rw [if_pos hdisk]
      exact noPanic_ok _
    · rw [if_neg hdisk]
      exact noPanic_expect (h.device_id (h.disk_device hdisk))
  intro overlayId
  apply unpanicked_bind _ _ (unpanicked_adaptExcept _)
  intro diskBinds
  apply unpanicked_bind _ _ (unpanicked_adaptExcept _)
  intro _
  apply unpanicked_bind
  · apply unpanicked_reading
    intro _
    obtain ⟨executable, rest, hcommand, -⟩ := h.command
    rw [hcommand]
    exact noPanic_expect rfl
  intro executable
  apply unpanicked_bind _ _ (unpanicked_adaptExcept _)
  intro _
  apply unpanicked_bind _ _ (unpanicked_adaptExcept _)
  intro _
  exact unpanicked_bind _ _ (unpanicked_adaptExcept _) fun _ => unpanicked_pure _

/-- The loop ends by itself and nothing panics. A configuration that comes out is an
accepted one, its command is what stands behind the separator, and `run` misses nothing of
it that it expects. -/
theorem parseArgs_accepts (arguments : List Bytes) :
    (∀ extra, parseOptions arguments (arguments.length + extra) 0 Options.initial =
      parseOptions arguments arguments.length 0 Options.initial) ∧
    parseArgs arguments ≠ .error .panic ∧
    ∀ config, parseArgs arguments = .ok config →
      config.Accepted ∧
      (∀ command, Separated arguments command ↔ command = config.command) ∧
      (∀ host sha256 rootfs lower overlayBase tree tree',
        prepareOperations host sha256 rootfs lower overlayBase config tree ≠
          .error .panic tree') ∧
      ∀ host tree lower uid gid, config.user = some (.numeric uid gid) →
        resolveIdentity host tree lower config.user = .ok (some ⟨uid, gid⟩) := by
  refine ⟨fun extra => parseOptions_more _ extra (by omega), noPanic_parseArgs arguments, ?_⟩
  intro config h
  obtain ⟨settings, options, command, hall, rfl, hfinish⟩ := parseArgs_reads h
  have hinitial : Options.initial.IdsValid := by
    constructor
    · intro id hid
      cases hid
    · intro id hid
      cases hid
  obtain ⟨haccepted, rfl⟩ := accepted_config (idsValid_setAll settings hinitial hall) hfinish
  have hseparated := separated_settings settings config.command
  refine ⟨haccepted, ?_, ?_, ?_⟩
  · intro other
    constructor
    · intro hother
      exact hother.unique hseparated
    · rintro rfl
      exact hseparated
  · intro host sha256 rootfs lower overlayBase tree tree'
    exact unpanicked_prepareOperations haccepted host sha256 rootfs lower overlayBase tree tree'
  · intro host tree lower uid gid huser
    obtain ⟨huid, hgid⟩ := haccepted.ids uid gid huser
    rw [huser]
    show (do
      rejectIf (uid.toNat = overflowId ∨ gid.toNat = overflowId) _
      Except.ok _) = _
    simp only [rejectIf, if_neg (not_or.mpr ⟨huid, hgid⟩)]
    rfl

/-- Every option but `--user`. -/
def fullArguments : List Bytes :=
  [lit "--uid", lit "1000", lit "--standard-mounts", lit "--ro-bind", lit "/srv/conf", lit "/etc/app",
    lit "--rootfs", lit "/image", lit "--overlay-device", lit "/dev/vdb", lit "--overlay-id",
    lit "web", lit "--workdir", lit "/srv", lit "--disk-mount", lit "/var/lib/app", lit "--gid",
    lit "1001", lit "--bind", lit "/srv/data", lit "/data", lit "--tmpfs", lit "/var/tmp",
    lit "--", lit "/bin/sh", lit "--"]

theorem parseArgs_accepts_sh : ∃ config, parseArgs fullArguments = .ok config ∧
    config.Accepted ∧ config.command = [lit "/bin/sh", lit "--"] ∧
    ∀ host tree lower, resolveIdentity host tree lower config.user = .ok (some ⟨1000, 1001⟩) := by
  have hparsed : parseArgs fullArguments = .ok
      { rootfs := lit "/image", overlayDevice := some (lit "/dev/vdb"),
        overlayId := some (lit "web"), workdir := lit "/srv", user := some (.numeric 1000 1001),
        standardMounts := true, diskMounts := [lit "/var/lib/app"],
        binds := [⟨lit "/srv/conf", lit "/etc/app", true⟩, ⟨lit "/srv/data", lit "/data", false⟩],
        tmpfs := [lit "/var/tmp"], command := [lit "/bin/sh", lit "--"] } := by decide +kernel
  obtain ⟨haccepted, -, -, hidentity⟩ := (parseArgs_accepts fullArguments).2.2 _ hparsed
  exact ⟨_, hparsed, haccepted, rfl, fun host tree lower => hidentity host tree lower 1000 1001 rfl⟩

end Sandcamp.Sandrun
