import Sandcamp.Campd.Launch
import Sandcamp.Sandrun.Passwd

/-!
# The two readers of `/etc/passwd`

campd reads the file for main processes and sandrun for sidecars, each with a parser of
its own. Both look for the only entry of a user: `OnlyEntry` says what they find.
-/

namespace Sandcamp.Accounts
open Foundations

/-- A line that is no comment and has this name in its first field. -/
def entryOf (user line : Bytes) : Bool :=
  line ≠ [] ∧ line.head? ≠ some 35 ∧ (line.splitOn 58).head? = some user

/-- The number a field stands for, where it is an id. -/
def IdField (field : Bytes) (id : UInt32) : Prop :=
  parseUnsigned (2 ^ 32) field = some id.toNat ∧ id.toNat ≠ 2 ^ 32 - 1

/-- One line of the text is an entry of the user; it has seven fields, and the third and the
fourth are these ids. -/
def OnlyEntry (contents user : Bytes) (uid gid : UInt32) : Prop :=
  ∃ line uidField gidField, (lines contents).filter (entryOf user) = [line] ∧
    (∃ name password comment home shell,
      line.splitOn 58 = [name, password, uidField, gidField, comment, home, shell]) ∧
    IdField uidField uid ∧ IdField gidField gid

theorem idField_iff (field : Bytes) (id : UInt32) :
    IdField field id ↔ ∃ n, parseUnsigned (2 ^ 32) field = some n ∧ n ≠ 2 ^ 32 - 1 ∧
      UInt32.ofNat n = id := by
  constructor
  · intro h
    exact ⟨id.toNat, h.1, h.2, UInt32.ofNat_toNat⟩
  · rintro ⟨n, hfield, hmax, rfl⟩
    have hvalue : (UInt32.ofNat n).toNat = n := UInt32.toNat_ofNat_of_lt' (parseUnsigned_lt hfield)
    unfold IdField
    rw [hvalue]
    exact ⟨hfield, hmax⟩

theorem parsePasswdId_eq_ok (value : Bytes) (line : ℕ) (reason : String) (id : UInt32) :
    Sandrun.parsePasswdId value line reason = .ok id ↔ IdField value id := by
  rw [idField_iff]
  simp only [Sandrun.parsePasswdId, bind_eq_ok, okOr_eq_ok, rejectIf_eq_ok, exists_unit,
    Except.ok.injEq]

theorem parseMainPasswdId_eq_ok (value : Bytes) (line : ℕ) (reason : Bytes) (id : UInt32) :
    Campd.parseMainPasswdId value line reason = .ok id ↔ IdField value id := by
  rw [idField_iff]
  unfold Campd.parseMainPasswdId
  cases parseUnsigned (2 ^ 32) value with
  | none => simp
  | some n =>
    show (if n = 2 ^ 32 - 1 then Except.error _ else Except.ok (UInt32.ofNat n)) = _ ↔ _
    by_cases hlast : n = 2 ^ 32 - 1
    · rw [if_pos hlast]
      constructor
      · intro h
        cases h
      · rintro ⟨m, hm, hne, -⟩
        exact absurd (Option.some.inj hm ▸ hlast) hne
    · rw [if_neg hlast]
      constructor
      · intro h
        exact ⟨n, rfl, hlast, Except.ok.inj h⟩
      · rintro ⟨m, hm, -, hid⟩
        rw [Option.some.inj hm, hid]

/-! ### One scan, two readers -/

section Scan

variable {ε ι : Type} {uidOf gidOf : Bytes → ℕ → Except ε UInt32} {short again : ℕ → ε}
  {identity : UInt32 → UInt32 → ι}

/-- The loop body that both readers have. -/
def scanLine (uidOf gidOf : Bytes → ℕ → Except ε UInt32) (short again : ℕ → ε)
    (identity : UInt32 → UInt32 → ι) (user : Bytes) (found : Option ι) (entry : Bytes × ℕ) :
    Except ε (Option ι) :=
  let (line, index) := entry
  let fields := line.splitOn 58
  if line = [] ∨ line.head? = some 35 then .ok found
  else if fields.head? ≠ some user then .ok found
  else do
    rejectIf (found.isSome) (again (index + 1))
    match fields with
    | [_, _, uid, gid, _, _, _] => do
      let uid ← uidOf uid (index + 1)
      let gid ← gidOf gid (index + 1)
      .ok (some (identity uid gid))
    | _ => .error (short (index + 1))

/-- The seven fields of an entry, its ids read as the reader does. -/
def readEntry (uidOf gidOf : Bytes → ℕ → Except ε UInt32) (short : ℕ → ε)
    (identity : UInt32 → UInt32 → ι) (entry : Bytes × ℕ) : Except ε ι :=
  match entry.1.splitOn 58 with
  | [_, _, uid, gid, _, _, _] => do
    let uid ← uidOf uid (entry.2 + 1)
    let gid ← gidOf gid (entry.2 + 1)
    .ok (identity uid gid)
  | _ => .error (short (entry.2 + 1))

theorem readEntry_eq_ok (huid : ∀ value line id, uidOf value line = .ok id ↔ IdField value id)
    (hgid : ∀ value line id, gidOf value line = .ok id ↔ IdField value id)
    (entry : Bytes × ℕ) (result : ι) :
    readEntry uidOf gidOf short identity entry = .ok result ↔
      ∃ uidField gidField uid gid, (∃ name password comment home shell, entry.1.splitOn 58 =
          [name, password, uidField, gidField, comment, home, shell]) ∧
        IdField uidField uid ∧ IdField gidField gid ∧ identity uid gid = result := by
  unfold readEntry
  split
  · rename_i name password uidField gidField comment home shell hfields
    simp only [bind_eq_ok, huid, hgid, Except.ok.injEq]
    constructor
    · rintro ⟨uid, hu, gid, hg, rfl⟩
      exact ⟨uidField, gidField, uid, gid, ⟨name, password, comment, home, shell, hfields⟩, hu, hg,
        rfl⟩
    · rintro ⟨uidField', gidField', uid, gid, ⟨_, _, _, _, _, hsame⟩, hu, hg, hresult⟩
      rw [hfields] at hsame
      simp only [List.cons.injEq, and_true] at hsame
      obtain ⟨-, -, rfl, rfl, -⟩ := hsame
      exact ⟨uid, hu, gid, hg, hresult⟩
  · rename_i hshort
    constructor
    · intro h
      cases h
    · rintro ⟨uidField, gidField, uid, gid, ⟨name, password, comment, home, shell, hfields⟩, -⟩
      exact absurd hfields (hshort _ _ _ _ _ _ _)

theorem filter_zipIdx (p : Bytes → Bool) (xs : List Bytes) (start : ℕ) :
    ((xs.zipIdx start).filter fun entry => p entry.1).map Prod.fst = xs.filter p := by
  have hfst : (xs.zipIdx start).map Prod.fst = xs := List.zipIdx_map_fst start xs
  have hfilter := List.filter_map (f := Prod.fst) (p := p) (l := xs.zipIdx start)
  rw [hfst] at hfilter
  exact hfilter.symm

theorem scanLine_eq (user : Bytes) (found : Option ι) (entry : Bytes × ℕ) :
    scanLine uidOf gidOf short again identity user found entry =
      takeOnly (fun entry => entryOf user entry.1) (readEntry uidOf gidOf short identity)
        (fun entry => again (entry.2 + 1)) found entry := by
  obtain ⟨line, index⟩ := entry
  unfold scanLine takeOnly
  by_cases hskip : line = [] ∨ line.head? = some 35
  · have hother : ¬entryOf user line = true := by
      simp only [entryOf, decide_eq_true_eq]
      intro h
      exact hskip.elim h.1 h.2.1
    rw [if_neg hother]
    exact if_pos hskip
  · have hline := not_or.mp hskip
    by_cases hname : (line.splitOn 58).head? = some user
    · have hentry : entryOf user line = true := decide_eq_true ⟨hline.1, hline.2, hname⟩
      rw [if_pos hentry]
      simp only [if_neg hskip, if_neg (not_not.mpr hname), readEntry]
      cases rejectIf (found.isSome) (again (index + 1)) with
      | error e => rfl
      | ok _ =>
        simp only [bind, Except.bind]
        split
        · rename_i uid gid _ _ _ _
          cases uidOf uid (index + 1) with
          | error e => rfl
          | ok _ =>
            cases gidOf gid (index + 1) with
            | error e => rfl
            | ok _ => rfl
        · rfl
    · have hother : ¬entryOf user line = true := by
        simp only [entryOf, decide_eq_true_eq]
        exact fun h => hname h.2.2
      rw [if_neg hother]
      simp only [if_neg hskip, if_pos hname]

/-- A scan for the only entry of a user finds the ids of `OnlyEntry`. -/
theorem scan_eq_ok (uidOf gidOf : Bytes → ℕ → Except ε UInt32) (short again : ℕ → ε)
    (identity : UInt32 → UInt32 → ι)
    (huid : ∀ value line id, uidOf value line = .ok id ↔ IdField value id)
    (hgid : ∀ value line id, gidOf value line = .ok id ↔ IdField value id)
    (hidentity : ∀ uid gid uid' gid', identity uid gid = identity uid' gid' →
      uid = uid' ∧ gid = gid') (contents user : Bytes) (uid gid : UInt32) :
    (lines contents).zipIdx.foldlM (scanLine uidOf gidOf short again identity user) none =
      .ok (some (identity uid gid)) ↔ OnlyEntry contents user uid gid := by
  have hstep : scanLine uidOf gidOf short again identity user =
      takeOnly (fun entry => entryOf user entry.1) (readEntry uidOf gidOf short identity)
        fun entry => again (entry.2 + 1) := by
    funext found entry
    exact scanLine_eq user found entry
  rw [hstep, foldlM_takeOnly]
  have hlines := filter_zipIdx (entryOf user) (lines contents) 0
  constructor
  · rintro ⟨entry, honly, hread⟩
    obtain ⟨uidField, gidField, uid', gid', hfields, hu, hg, hsame⟩ :=
      (readEntry_eq_ok huid hgid entry _).mp hread
    obtain ⟨rfl, rfl⟩ := hidentity _ _ _ _ hsame
    rw [honly] at hlines
    exact ⟨entry.1, uidField, gidField, hlines.symm, hfields, hu, hg⟩
  · rintro ⟨line, uidField, gidField, honly, hfields, hu, hg⟩
    rw [honly] at hlines
    obtain ⟨entry, hentry, hline⟩ := List.map_eq_singleton_iff.mp hlines
    refine ⟨entry, hentry, (readEntry_eq_ok huid hgid entry _).mpr ?_⟩
    rw [hline]
    exact ⟨uidField, gidField, uid, gid, hfields, hu, hg, rfl⟩

end Scan

theorem parseMainPasswd_eq_ok (contents user : Bytes) (uid gid : UInt32) :
    Campd.parseMainPasswd contents user = .ok ⟨uid, gid⟩ ↔ OnlyEntry contents user uid gid := by
  have hscan := scan_eq_ok
    (fun value line => Campd.parseMainPasswdId value line (lit "UID is invalid"))
    (fun value line => Campd.parseMainPasswdId value line (lit "GID is invalid"))
    (fun line =>
      Campd.passwdEntryError line (lit "matching entry must contain seven fields"))
    (fun line => Campd.passwdEntryError line (lit "user name is duplicated"))
    Campd.NumericUser.mk
    (fun value line id => parseMainPasswdId_eq_ok value line _ id)
    (fun value line id => parseMainPasswdId_eq_ok value line _ id)
    (fun _ _ _ _ h => Campd.NumericUser.mk.inj h) contents user uid gid
  rw [← hscan]
  simp only [Campd.parseMainPasswd, bind_eq_ok, okOr_eq_ok]
  exact exists_eq_right

theorem parsePasswd_eq_ok (contents user : Bytes) (uid gid : UInt32) :
    Sandrun.parsePasswd contents user = .ok ⟨uid, gid⟩ ↔ OnlyEntry contents user uid gid := by
  have hscan := scan_eq_ok
    (fun value line => Sandrun.parsePasswdId value line "UID is invalid")
    (fun value line => Sandrun.parsePasswdId value line "GID is invalid")
    (fun line =>
      Sandrun.passwdEntryError line "matching entry must contain seven fields")
    (fun line => Sandrun.passwdEntryError line "user name is duplicated")
    Sandrun.UserIdentity.mk
    (fun value line id => parsePasswdId_eq_ok value line _ id)
    (fun value line id => parsePasswdId_eq_ok value line _ id)
    (fun _ _ _ _ h => Sandrun.UserIdentity.mk.inj h) contents user uid gid
  rw [← hscan]
  simp only [Sandrun.parsePasswd, bind_eq_ok, okOr_eq_ok]
  exact exists_eq_right

/-- Both readers give a user the ids of the only entry there is of that user, and an error
where there is no such entry, more than one, or one that is malformed; all other lines may
be anything. -/
theorem passwd_readers_agree (contents user : Bytes) :
    (∀ uid gid, Campd.parseMainPasswd contents user = .ok ⟨uid, gid⟩ ↔
      OnlyEntry contents user uid gid) ∧
    (∀ uid gid, Sandrun.parsePasswd contents user = .ok ⟨uid, gid⟩ ↔
      OnlyEntry contents user uid gid) ∧
    ((¬∃ uid gid, OnlyEntry contents user uid gid) →
      (∃ e, Campd.parseMainPasswd contents user = .error e) ∧
      ∃ e, Sandrun.parsePasswd contents user = .error e) := by
  refine ⟨parseMainPasswd_eq_ok contents user, parsePasswd_eq_ok contents user, fun hnone => ?_⟩
  constructor
  · cases hread : Campd.parseMainPasswd contents user with
    | error e => exact ⟨e, rfl⟩
    | ok identity =>
      have hentry := (parseMainPasswd_eq_ok contents user identity.uid identity.gid).mp hread
      exact absurd ⟨_, _, hentry⟩ hnone
  · cases hread : Sandrun.parsePasswd contents user with
    | error e => exact ⟨e, rfl⟩
    | ok identity =>
      have hentry := (parsePasswd_eq_ok contents user identity.uid identity.gid).mp hread
      exact absurd ⟨_, _, hentry⟩ hnone

/-- The lines around the entry may be comments or malformed. -/
def passwdText : Bytes :=
  lit "# users
root:x:0:0:root:/root:/bin/sh
broken
app:x:1000:1001::/home/app:/bin/sh
"

theorem passwd_readers_agree_app :
    (Campd.parseMainPasswd passwdText (lit "app") = .ok ⟨1000, 1001⟩ ∧
      Sandrun.parsePasswd passwdText (lit "app") = .ok ⟨1000, 1001⟩) ∧
    (∃ e, Campd.parseMainPasswd passwdText (lit "nobody") = .error e) ∧
      ∃ e, Sandrun.parsePasswd passwdText (lit "nobody") = .error e := by
  obtain ⟨hcampd, hsandrun, -⟩ := passwd_readers_agree passwdText (lit "app")
  have hread : Campd.parseMainPasswd passwdText (lit "app") = .ok ⟨1000, 1001⟩ := by decide +kernel
  refine ⟨⟨hread, (hsandrun 1000 1001).mpr ((hcampd 1000 1001).mp hread)⟩, ?_⟩
  apply (passwd_readers_agree passwdText (lit "nobody")).2.2
  rintro ⟨uid, gid, line, uidField, gidField, honly, -⟩
  have hnone : (lines passwdText).filter (entryOf (lit "nobody")) = [] := by decide +kernel
  rw [hnone] at honly
  cases honly

end Sandcamp.Accounts
