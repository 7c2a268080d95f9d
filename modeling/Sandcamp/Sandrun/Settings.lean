import Sandcamp.Sandrun.Args

/-!
# The option part of a command line as a list of settings

A `Setting` is one option with its values. Its `arguments` are the words it
takes on the command line and `Options.set` is its effect on the local variables
of `parse_args`. `parseOptions_settings` runs the index loop over any list of
settings followed by `--`: what comes after the separator is never read.
-/

namespace Sandcamp.Sandrun
open Foundations Foundations.UnixPath

inductive Setting where
  | rootfs (path : Bytes)
  | overlayDevice (path : Bytes)
  | overlayId (id : Bytes)
  | workdir (path : Bytes)
  | user (name : Bytes)
  | uid (value : Bytes)
  | gid (value : Bytes)
  | standardMounts
  | diskMount (target : Bytes)
  | bind (bind : Bind)
  | tmpfs (target : Bytes)

/-- The option word of a setting. -/
def Setting.option : Setting → Bytes
  | rootfs _ => lit "--rootfs"
  | overlayDevice _ => lit "--overlay-device"
  | overlayId _ => lit "--overlay-id"
  | workdir _ => lit "--workdir"
  | user _ => lit "--user"
  | uid _ => lit "--uid"
  | gid _ => lit "--gid"
  | standardMounts => lit "--standard-mounts"
  | diskMount _ => lit "--disk-mount"
  | bind ⟨_, _, readonly⟩ => if readonly then lit "--ro-bind" else lit "--bind"
  | tmpfs _ => lit "--tmpfs"

/-- The values that follow it. -/
def Setting.values : Setting → List Bytes
  | rootfs value | overlayDevice value | overlayId value | workdir value | user value
  | uid value | gid value | diskMount value | tmpfs value => [value]
  | standardMounts => []
  | bind ⟨source, target, _⟩ => [source, target]

def Setting.arguments (setting : Setting) : List Bytes := setting.option :: setting.values

/-- The effect of one setting. -/
def Options.set (options : Options) : Setting → Except ConfigError Options
  | .rootfs path => .ok { options with rootfs := some path }
  | .overlayDevice path => .ok { options with overlayDevice := some path }
  | .overlayId id => .ok { options with overlayId := some id }
  | .workdir path => .ok { options with workdir := path }
  | .user name => do
    rejectIf (validUserName name = false) (.invalidUserName name)
    rejectIf (options.userName.isSome) (.duplicateUserOption (lit "--user"))
    .ok { options with userName := some name }
  | .uid value => do
    let id ← parseUserId (lit "--uid") value
    rejectIf (options.uid.isSome) (.duplicateUserOption (lit "--uid"))
    .ok { options with uid := some id }
  | .gid value => do
    let id ← parseUserId (lit "--gid") value
    rejectIf (options.gid.isSome) (.duplicateUserOption (lit "--gid"))
    .ok { options with gid := some id }
  | .standardMounts => .ok { options with standardMounts := true }
  | .diskMount target => .ok { options with diskMounts := options.diskMounts ++ [target] }
  | .bind bind => .ok { options with binds := options.binds ++ [bind] }
  | .tmpfs target => .ok { options with tmpfs := options.tmpfs ++ [target] }

def Options.setAll (options : Options) (settings : List Setting) : Except ConfigError Options :=
  settings.foldlM Options.set options

theorem toStr_of_validUserName (name : Bytes) (h : validUserName name = true) :
    toStr name = some name := by
  unfold validUserName at h
  cases hs : toStr name with
  | none => simp [hs] at h
  | some text =>
    unfold toStr at hs
    split_ifs at hs
    rw [Option.some.inj hs]

theorem pathValue_of_getElem? (arguments : List Bytes) (index : ℕ) (option value : Bytes)
    (h : arguments[index + 1]? = some value) :
    pathValue arguments index option = .ok (index + 1, value) := by
  simp only [pathValue, h, okOr]
  rfl

/-- The arm of `--user` when the value behind the index is `name`. -/
theorem parseUser_eq_ok (arguments : List Bytes) (index : ℕ) (options options' : Options)
    (name : Bytes) (hat : arguments[index + 1]? = some name)
    (h : options.set (.user name) = .ok options') :
    parseUser arguments index options = .ok (index + 1, options') := by
  simp only [Options.set, bind_eq_ok, exists_unit, rejectIf_eq_ok, Bool.not_eq_false,
    Except.ok.injEq] at h
  obtain ⟨hname, hfresh, rfl⟩ := h
  simp only [parseUser, pathValue_of_getElem? arguments index _ name hat]
  simp only [bind, Except.bind, hat, expect, toStr_of_validUserName name hname, rejectIf]
  simp [hname, hfresh]

/-- The arm of `--uid` and `--gid` when the value behind the index is `value`. -/
theorem parseId_eq_ok (arguments : List Bytes) (index : ℕ) (options options' : Options)
    (setting : Setting) (value : Bytes) (hat : arguments[index + 1]? = some value)
    (hid : setting = .uid value ∨ setting = .gid value) (h : options.set setting = .ok options') :
    parseId arguments index options setting.option = .ok (index + 1, options') := by
  simp only [parseId, pathValue_of_getElem? arguments index _ value hat]
  rcases hid with rfl | rfl
  · simp only [Options.set, bind_eq_ok, exists_unit, rejectIf_eq_ok, Except.ok.injEq] at h
    obtain ⟨id, hid, hfresh, rfl⟩ := h
    simp [bind, Except.bind, Setting.option, hid, Except.mapError, rejectIf, hfresh]
  · simp only [Options.set, bind_eq_ok, exists_unit, rejectIf_eq_ok, Except.ok.injEq] at h
    obtain ⟨id, hid, hfresh, rfl⟩ := h
    simp [bind, Except.bind, Setting.option, hid, Except.mapError, rejectIf, hfresh, lit_inj]

/-- The arm of `--bind` and `--ro-bind` when both values stand behind the index. -/
theorem parseBind_eq_ok (arguments : List Bytes) (index : ℕ) (options : Options)
    (mount : Bind) (hsource : arguments[index + 1]? = some mount.source)
    (htarget : arguments[index + 1 + 1]? = some mount.target) :
    parseBind arguments index options (Setting.bind mount).option =
      .ok (index + 2, { options with binds := options.binds ++ [mount] }) := by
  have hreadonly : decide ((Setting.bind mount).option = lit "--ro-bind") = mount.readonly := by
    cases hr : mount.readonly <;> simp [Setting.option, hr, lit_inj]
  simp only [parseBind, pathValue_of_getElem? arguments index _ _ hsource, hreadonly]
  simp only [bind, Except.bind, pathValue_of_getElem? arguments (index + 1) _ _ htarget]

/-- A setting at the index is read as its effect, and the index ends on its last word. -/
theorem parseOption_setting (earlier later : List Bytes) (setting : Setting)
    (options options' : Options) (h : options.set setting = .ok options') :
    parseOption (earlier ++ (setting.arguments ++ later)) earlier.length options setting.option =
      .ok (earlier.length + setting.values.length, options') := by
  have hvalues : ∀ i, (earlier ++ (setting.arguments ++ later))[earlier.length + 1 + i]? =
      (setting.values ++ later)[i]? := by
    intro i
    rw [List.getElem?_append_right (by omega), Nat.add_assoc, Nat.add_sub_cancel_left, Nat.add_comm]
    rfl
  have hfirst := hvalues 0
  have hsecond := hvalues 1
  generalize earlier ++ (setting.arguments ++ later) = arguments at hfirst hsecond ⊢
  cases setting with
  | rootfs value =>
    cases h
    simp [parseOption, Setting.option, pathValue_of_getElem? arguments _ _ value hfirst,
      Setting.values, bind, Except.bind]
  | overlayDevice value =>
    cases h
    simp [parseOption, Setting.option, pathValue_of_getElem? arguments _ _ value hfirst,
      Setting.values, bind, Except.bind, lit_inj]
  | overlayId value =>
    cases h
    simp [parseOption, Setting.option, pathValue_of_getElem? arguments _ _ value hfirst,
      Setting.values, bind, Except.bind, lit_inj]
  | workdir value =>
    cases h
    simp [parseOption, Setting.option, pathValue_of_getElem? arguments _ _ value hfirst,
      Setting.values, bind, Except.bind, lit_inj]
  | user value =>
    simp [parseOption, Setting.option, lit_inj, Setting.values,
      parseUser_eq_ok arguments _ options options' value hfirst h]
  | uid value =>
    have hid := parseId_eq_ok arguments _ options options' _ value hfirst (Or.inl rfl) h
    simp only [Setting.option] at hid ⊢
    simp [parseOption, lit_inj, Setting.values, hid]
  | gid value =>
    have hid := parseId_eq_ok arguments _ options options' _ value hfirst (Or.inr rfl) h
    simp only [Setting.option] at hid ⊢
    simp [parseOption, lit_inj, Setting.values, hid]
  | standardMounts =>
    cases h
    simp [parseOption, Setting.option, Setting.values, lit_inj]
  | diskMount value =>
    cases h
    simp [parseOption, Setting.option, pathValue_of_getElem? arguments _ _ value hfirst,
      Setting.values, bind, Except.bind, lit_inj]
  | bind mount =>
    cases h
    have hbind := parseBind_eq_ok arguments _ options mount hfirst hsecond
    cases hr : mount.readonly with
    | false =>
      simp only [Setting.option, hr, Bool.false_eq_true, if_false] at hbind ⊢
      simp [parseOption, lit_inj, Setting.values, hbind]
    | true =>
      simp only [Setting.option, hr, if_true] at hbind ⊢
      simp [parseOption, lit_inj, Setting.values, hbind]
  | tmpfs value =>
    cases h
    simp [parseOption, Setting.option, pathValue_of_getElem? arguments _ _ value hfirst,
      Setting.values, bind, Except.bind, lit_inj]

theorem option_ne_separator (setting : Setting) : setting.option ≠ lit "--" := by
  cases setting with
  | bind mount => cases hr : mount.readonly <;> simp [Setting.option, hr, lit_inj]
  | _ => simp [Setting.option, lit_inj]

/-- The loop over a list of settings that ends at `--`: the options hold the
effects in order and the separator is the word after the last value. -/
theorem parseOptions_settings (settings : List Setting) (earlier command : List Bytes)
    (options options' : Options) (fuel : ℕ)
    (hfuel : (settings.flatMap Setting.arguments).length < fuel)
    (h : options.setAll settings = .ok options') :
    parseOptions (earlier ++ (settings.flatMap Setting.arguments ++ lit "--" :: command)) fuel
        earlier.length options =
      .ok (options', some (earlier.length + (settings.flatMap Setting.arguments).length)) := by
  induction settings generalizing earlier options fuel with
  | nil =>
    obtain ⟨fuel, rfl⟩ : ∃ n, fuel = n + 1 := ⟨fuel - 1, by omega⟩
    have he : options = options' := Except.ok.inj h
    simp [parseOptions, he, expect, bind, Except.bind]
  | cons setting settings ih =>
    obtain ⟨fuel, rfl⟩ : ∃ n, fuel = n + 1 := ⟨fuel - 1, by omega⟩
    obtain ⟨next, hset, hrest⟩ := (foldlM_cons_eq_ok _ _ _ _ _).mp h
    have hlen : setting.arguments.length = setting.values.length + 1 := rfl
    have hread := parseOption_setting earlier
      (settings.flatMap Setting.arguments ++ lit "--" :: command) setting options next hset
    have hloop := ih (earlier ++ setting.arguments) next fuel (by
      simp only [List.flatMap_cons, List.length_append] at hfuel
      omega) hrest
    simp only [List.length_append, hlen, List.append_assoc] at hloop
    simp only [List.flatMap_cons, List.append_assoc, List.length_append, hlen]
    have hin : earlier.length < (earlier ++ (setting.arguments ++
        (settings.flatMap Setting.arguments ++ lit "--" :: command))).length := by
      simp [Setting.arguments]
    have hat : (earlier ++ (setting.arguments ++
        (settings.flatMap Setting.arguments ++ lit "--" :: command)))[earlier.length]? =
          some setting.option := by
      rw [List.getElem?_append_right (Nat.le_refl _), Nat.sub_self]
      rfl
    rw [parseOptions, if_pos hin, hat]
    simp only [expect, bind, Except.bind, if_neg (option_ne_separator setting), hread]
    rw [Nat.add_assoc, hloop, Nat.add_assoc]

theorem parseArgs_settings (settings : List Setting) (command : List Bytes) (options : Options)
    (h : Options.initial.setAll settings = .ok options) :
    parseArgs (settings.flatMap Setting.arguments ++ lit "--" :: command) =
      finishArgs options command := by
  have hloop := parseOptions_settings settings [] command Options.initial options
    (settings.flatMap Setting.arguments ++ lit "--" :: command).length (by simp) h
  simp only [List.nil_append, List.length_nil, Nat.zero_add] at hloop
  have hslice : (settings.flatMap Setting.arguments ++ lit "--" :: command).drop
      ((settings.flatMap Setting.arguments).length + 1) = command := by
    rw [List.drop_append, List.drop_eq_nil_of_le (Nat.le_succ _), Nat.add_sub_cancel_left]
    rfl
  simp only [parseArgs, hloop, bind, Except.bind, okOr, sliceFrom, hslice]
  simp

end Sandcamp.Sandrun
