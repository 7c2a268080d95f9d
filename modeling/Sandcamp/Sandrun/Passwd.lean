import Sandcamp.Foundations.Utf8
import Sandcamp.Sandrun.Rootfs

/-!
# The identity of the command (linux.rs:70-88, 151-224)

A named user is looked up in `/etc/passwd` of the rootfs before anything is mounted;
numeric ids are taken as they are.
-/

namespace Sandcamp.Sandrun
open Foundations Foundations.UnixPath

structure UserIdentity where
  uid : UInt32
  gid : UInt32
  deriving DecidableEq

def maxPasswdBytes : ℕ := 1024 * 1024

def passwdEntryError (line : ℕ) (reason : String) : RuntimeError :=
  .invalidPasswdEntry line (lit reason)

/-- `parse_passwd_id` (`linux.rs:216-224`). -/
def parsePasswdId (value : Bytes) (line : ℕ) (reason : String) : Except RuntimeError UInt32 := do
  let id ← okOr (parseUnsigned (2 ^ 32) value) (passwdEntryError line reason)
  rejectIf (id = 2 ^ 32 - 1) (passwdEntryError line reason)
  .ok (UInt32.ofNat id)

/-- One round of the loop over the lines (`linux.rs:188-212`). -/
def parsePasswdLine (user : Bytes) (found : Option UserIdentity) (entry : Bytes × ℕ) :
    Except RuntimeError (Option UserIdentity) :=
  let (line, index) := entry
  let lineNumber := index + 1
  let fields := line.splitOn 58
  if line = [] ∨ line.head? = some 35 then .ok found
  else if fields.head? ≠ some user then .ok found
  else do
    rejectIf (found.isSome) (passwdEntryError lineNumber "user name is duplicated")
    match fields with
    | [_, _, uid, gid, _, _, _] => do
      let uid ← parsePasswdId uid lineNumber "UID is invalid"
      let gid ← parsePasswdId gid lineNumber "GID is invalid"
      .ok (some ⟨uid, gid⟩)
    | _ => .error (passwdEntryError lineNumber "matching entry must contain seven fields")

/-- `parse_passwd` (`linux.rs:186-214`). -/
def parsePasswd (contents user : Bytes) : Except RuntimeError UserIdentity := do
  let found ← (lines contents).zipIdx.foldlM (parsePasswdLine user) none
  okOr found (.userNotFound user)

/-- `resolve_user` (`linux.rs:151-184`). -/
def resolveUser (host : Host) (tree : Tree) (rootfs user : Bytes) :
    Except RuntimeError UserIdentity := do
  let position ← resolvePosition host tree rootfs (lit "/etc/passwd")
  let passwd := physical rootfs position
  let kind ← stat host tree rootfs position "passwd_stat_failed"
  match kind with
  | .regular contents => do
    rejectIf (maxPasswdBytes < contents.length) (.operation (lit "passwd_too_large") (some passwd))
    attempt host "passwd_read_failed" passwd
    let contents := contents.take (maxPasswdBytes + 1)
    rejectIf (maxPasswdBytes < contents.length) (.operation (lit "passwd_too_large") (some passwd))
    rejectIf (Utf8.valid contents = false) (passwdEntryError 0 "/etc/passwd is not UTF-8")
    parsePasswd contents user
  | _ => .error (passwdEntryError 0 "/etc/passwd is not a regular file")

/-- The `match` of `run` over the configured user (`linux.rs:72-88`). -/
def resolveIdentity (host : Host) (tree : Tree) (rootfs : Bytes) :
    Option ProcessUser → Except RuntimeError (Option UserIdentity)
  | some (.named user) => do
    let identity ← resolveUser host tree rootfs user
    .ok (some identity)
  | some (.numeric uid gid) => do
    rejectIf (uid.toNat = 2 ^ 32 - 1 ∨ gid.toNat = 2 ^ 32 - 1) (.invalidNumericUser uid gid)
    .ok (some ⟨uid, gid⟩)
  | none => .ok none

end Sandcamp.Sandrun
