import Mathlib.Tactic.Common

/-!
# Domain errors

`error.rs`.  A path is its text; an I/O error is its kind and, where the code
builds one itself, its message.
-/

namespace Upriv

abbrev PathBuf := String

/-- `std::io::ErrorKind`, as far as the code distinguishes or builds kinds. -/
inductive IoErrorKind where
  | notFound
  | alreadyExists
  | permissionDenied
  | invalidInput
  | invalidData
  | interrupted
  | other
  deriving DecidableEq, Repr

structure IoError where
  kind : IoErrorKind
  message : String
  deriving DecidableEq, Repr

inductive UprivError where
  | vaultRootNotFound (path : PathBuf)
  | vaultRootIncomplete (path : PathBuf) (detail : String)
  | vaultRootAliasInvalid (path : PathBuf)
  | vaultNotFound (path : PathBuf)
  | vaultConfigInvalid (path : PathBuf) (detail : String)
  | vaultConfigBusy (target : String)
  | vaultGroupsInvalid (path : PathBuf) (detail : String)
  | vaultGroupNotFound (id : String)
  | vaultAlreadyExists (path : PathBuf)
  | wrongPassword
  | vaultAlreadyOpen (id : String)
  | vaultNotOpen (id : String)
  | vaultUnlockBlocked (retryAfterSecs : ℕ)
  | insufficientRam
  | vaultStoreInvalid (path : PathBuf) (detail : String)
  | uprivPlainUnavailable
  | workspacePathInvalid (path : PathBuf) (detail : String)
  | workspacePathReserved (path : PathBuf)
  | workspaceUnset
  | workspaceUnavailable (path : PathBuf)
  | logFileTooLarge (path : PathBuf) (size max : ℕ)
  | io (error : IoError)
  deriving DecidableEq, Repr

abbrev Result (α : Type) := Except UprivError α

instance [DecidableEq α] : DecidableEq (Result α)
  | .ok a, .ok b => decidable_of_iff (a = b) (by simp)
  | .error e, .error f => decidable_of_iff (e = f) (by simp)
  | .ok _, .error _ => isFalse (by simp)
  | .error _, .ok _ => isFalse (by simp)

end Upriv
