import Upriv.Paths.Workspace

/-!
# The document `vaults/<id>/config.toml`

`config/vault_config/types.rs`.  What an absent section or key stands for is
filled in by the parser, so a value of `VaultConfig` has every field.
-/

namespace Upriv

inductive VaultStorageMode where
  | encryptedDir
  | uprivPlain
  deriving DecidableEq, Repr

inductive VaultBackupMode where
  | keepLast
  | keepAll
  deriving DecidableEq, Repr

/-- `ramOnCloseOnly` is a legacy value of `config.toml`. -/
inductive VaultSecurityMode where
  | alwaysPrompt
  | sessionRam
  | ramOnCloseOnly
  | diskClose
  | diskOpenClose
  deriving DecidableEq, Repr

/-- Deprecated modes are rewritten. -/
def VaultSecurityMode.normalized : VaultSecurityMode → VaultSecurityMode
  | .ramOnCloseOnly => .sessionRam
  | other => other

inductive VaultWipePattern where
  | random
  | zeros
  deriving DecidableEq, Repr

inductive VaultArchiveMode where
  | compressEncrypt
  | encryptOnly
  deriving DecidableEq, Repr

inductive VaultSevenZipMethod where
  | lzma2
  deriving DecidableEq, Repr

structure VaultIdentitySection where
  id : String
  displayName : String
  order : Int64 := 0
  note : String := ""
  hidden : Bool := false
  passwordHint : String := ""
  deriving DecidableEq, Repr

structure VaultStorageSection where
  mode : VaultStorageMode := .encryptedDir
  deriving DecidableEq, Repr

structure VaultMountSection where
  workspacePath : String := WORKSPACE_PATH_DEFAULT
  deriving DecidableEq, Repr

structure VaultBackupSection where
  enabled : Bool := true
  mode : VaultBackupMode := .keepLast
  keepLast : UInt32 := 1
  deriving DecidableEq, Repr

structure VaultSecuritySection where
  mode : VaultSecurityMode := .sessionRam
  secureWipeWorkspace : Bool := true
  wipePasses : UInt32 := 1
  wipePattern : VaultWipePattern := .random
  passwordChangedAt : Option String := none
  deriving DecidableEq, Repr

structure VaultAutoCloseSection where
  enabled : Bool := false
  idleMinutes : UInt32 := 15
  warnBeforeSeconds : UInt32 := 60
  closeOnAppExit : Bool := false
  deriving DecidableEq, Repr

structure VaultSevenZipSection where
  encryptFileNames : Bool := true
  archiveMode : VaultArchiveMode := .encryptOnly
  compressionLevel : UInt8 := 0
  solid : Bool := false
  method : VaultSevenZipMethod := .lzma2
  deriving DecidableEq, Repr

structure VaultPolicySection where
  allowExternalEditors : Bool := false
  disallowCopyOutsideMount : Bool := true
  requireUnmountOnSleep : Bool := true
  deriving DecidableEq, Repr

structure VaultConfig where
  vault : VaultIdentitySection
  storage : VaultStorageSection := {}
  mount : VaultMountSection := {}
  backup : VaultBackupSection := {}
  security : VaultSecuritySection := {}
  autoClose : VaultAutoCloseSection := {}
  sevenZip : VaultSevenZipSection := {}
  policy : VaultPolicySection := {}
  deriving DecidableEq, Repr

def VaultConfig.storageMode (config : VaultConfig) : VaultStorageMode :=
  config.storage.mode

end Upriv
