import Upriv.Paths.VaultRoot
import Upriv.Vault.World

/-!
# Creating, opening and closing a vault

`vault/create.rs` and `vault/open_close.rs`.  Log lines are left out; they go
to files of their own.
-/

namespace Upriv.Vault

open Contents (KdfUnlockPreset createSeededStore openStore contentHashHex saveSealedIndex)

variable {U : UuidCrate} (env : VaultEnv U)

def contentsDir (vaultDir : PathBuf) : PathBuf := joinPath vaultDir "contents"

/-! ## `create_vault` -/

/-- A directory that must be new. -/
def createDestination (dest : PathBuf) : FsM Unit := do
  match ← FallibleM.attempt (createDir env.faults dest) with
  | .ok _ => return ()
  | .error (.io error) =>
      if error.kind = .alreadyExists then throw (.vaultAlreadyExists dest)
      else throw (.io error)
  | .error error => throw error

/-- Configuration, seeded store, backups and the hash of the store. -/
def fillDestination (dest : PathBuf) (config : VaultConfig) (password : Bytes)
    (preset : KdfUnlockPreset) : FsM Unit := do
  saveVaultConfig env.faults env.codec env.canonicalize dest config
  let _ ← createSeededStore env.crates env.faults env.draws (contentsDir dest) password preset
  createDirAll env.faults (joinPath dest "backups")
  let hash ← contentHashHex env.crates env.faults (contentsDir dest)
  let d ← get
  saveVaultPersistence env dest (persistenceClosed config.vault.id config.vault.displayName
    (some hash) (env.timestamp d.calls))

/-- The directory is taken away again when filling it fails. -/
def fillOrRemove (dest : PathBuf) (config : VaultConfig) (password : Bytes)
    (preset : KdfUnlockPreset) : FsM Unit := do
  match ← FallibleM.attempt (fillDestination env dest config password preset) with
  | .ok _ => return ()
  | .error error =>
      let _ ← FallibleM.attempt (removeDirAll env.faults env.leftover dest)
      throw error

/-- The configuration that is persisted: its id is the directory name. -/
def trimmedId (config : VaultConfig) : VaultConfig :=
  { config with vault := { config.vault with id := trim config.vault.id } }

def createVault (root : VaultRoot) (config : VaultConfig) (password : Bytes)
    (preset : KdfUnlockPreset) : FsM Unit := do
  FallibleM.ensure (password ≠ []) .wrongPassword
  FallibleM.ensure (config.storageMode ≠ .uprivPlain) .uprivPlainUnavailable
  let dest ← FallibleM.ofExcept (root.vaultDir (trim config.vault.id))
  createDirAll env.faults root.vaultsDir
  createDestination env dest
  fillOrRemove env dest (trimmedId config) password preset

/-! ## `open_vault` -/

def vaultDirOrNotFound (root : VaultRoot) (vaultId : String) : VaultM U PathBuf := do
  let dir ← FallibleM.ofExcept (root.vaultDir vaultId)
  let w ← get
  FallibleM.ensure (w.disk.isDir dir) (.vaultNotFound dir)
  return dir

/-- Everything under the unlock lock before `open_store`. -/
def openPrelude (vaultDir : PathBuf) (vaultId : String) : VaultM U VaultConfig := do
  checkUnlockAllowed env vaultDir
  let w ← get
  FallibleM.ensure ((w.sessions vaultDir).isNone) (.vaultAlreadyOpen vaultId)
  let config ← onDisk (loadVaultConfig env.faults env.codec env.canonicalize vaultDir)
  FallibleM.ensure (config.storageMode ≠ .uprivPlain) .uprivPlainUnavailable
  return config

/-- `open_store`, the record of its outcome, and the session. -/
def openIntoSession (vaultDir : PathBuf) (vaultId : String) (password : Bytes)
    (config : VaultConfig) : VaultM U Unit := do
  match ← FallibleM.attempt
      (onDisk (openStore env.crates env.faults (contentsDir vaultDir) password)) with
  | .ok opened =>
      recordUnlockSuccess vaultDir
      insertSession {
        vaultId := vaultId
        vaultDir := vaultDir
        header := opened.header
        masterKey := opened.masterKey
        contentKey := opened.contentKey
        indexKey := opened.indexKey
        index := opened.index
        securityMode := config.security.mode.normalized }
  | .error .wrongPassword =>
      let _ ← FallibleM.attempt (recordUnlockFailure env vaultDir)
      throw .wrongPassword
  | .error error => throw error

/-- `open_vault` up to the call of `open_store`. -/
def openUntilStore (root : VaultRoot) (vaultId : String) (password : Bytes) :
    VaultM U (PathBuf × VaultConfig) := do
  FallibleM.ensure (password ≠ []) .wrongPassword
  let vaultDir ← vaultDirOrNotFound root vaultId
  let config ← openPrelude env vaultDir vaultId
  return (vaultDir, config)

def openVault (root : VaultRoot) (vaultId : String) (password : Bytes) : VaultM U Unit := do
  let (vaultDir, config) ← openUntilStore env root vaultId password
  openIntoSession env vaultDir vaultId password config

/-! ## `close_vault` -/

/-- Reseal the index and record the hash of the store. -/
def persistClosed (vaultDir : PathBuf) (session : OpenSession U) : FsM Unit := do
  saveSealedIndex env.crates env.faults env.draws (contentsDir vaultDir) session.header
    session.indexKey session.index
  let hash ← contentHashHex env.crates env.faults (contentsDir vaultDir)
  let displayName ←
    match ← FallibleM.attempt (loadVaultConfigRaw env.faults env.codec vaultDir) with
    | .ok config => pure config.vault.displayName
    | .error _ => pure session.vaultId
  let d ← get
  saveVaultPersistence env vaultDir (persistenceClosed session.vaultId displayName
    (some hash) (env.timestamp d.calls))

/-- The presence check of `always_prompt`. -/
def promptRefused (session : OpenSession U) (password : Option Bytes) : Bool :=
  session.securityMode = .alwaysPrompt && !password.any (· ≠ [])

/-- Persist, or put the session back. -/
def persistOrReinsert (vaultDir : PathBuf) (session : OpenSession U) : VaultM U Unit := do
  match ← FallibleM.attempt (onDisk (persistClosed env vaultDir session)) with
  | .ok _ => return ()
  | .error error =>
      let _ ← FallibleM.attempt (insertSession session)
      throw error

def closeVault (root : VaultRoot) (vaultId : String) (password : Option Bytes) :
    VaultM U Unit := do
  let vaultDir ← vaultDirOrNotFound root vaultId
  let session ← takeSession vaultDir
  if promptRefused session password then
    insertSession session
    throw .wrongPassword
  else persistOrReinsert env vaultDir session

/-! ## A sample environment -/

def sampleUuid : UuidCrate.hyphenated.Uuid :=
  ⟨"00000000-0000-4000-8000-00000000000a".toList, by decide⟩

/-- The random values of every step. -/
def sampleDraw : Contents.StoreDraws UuidCrate.hyphenated where
  masterKey := Vector.replicate _ 7
  salt := Vector.replicate _ 5
  contentIdentity := sampleUuid
  wrapNonce := Vector.replicate _ 0
  indexNonce := Vector.replicate _ 0
  fileId := sampleUuid
  chunkNonce _ := Vector.replicate _ 0
  chunkFaults _ := none

/-- A header whose wrapped key no password opens. -/
def sampleHeader : Contents.VaultHeader UuidCrate.hyphenated :=
  Contents.unwrappedHeader
    (.standIn (.ofTable [] Contents.noHeaderTexts) (.ofTable [] Contents.noIndexTexts)
      (.ofTable [] Contents.noPersistenceTexts))
    .m32 sampleDraw

def sampleHeaderText : String := "\x7b\"format_version\":1\x7d"

def sampleConfig : VaultConfig := { vault := ⟨"notes", "Notes", 0, "", false, ""⟩ }

def sampleConfigText : String := "[vault]\nid = \"notes\"\ndisplay_name = \"Notes\"\n"

def sampleEnv : VaultEnv UuidCrate.hyphenated where
  faults _ := none
  leftover _ _ := false
  codec := .ofTable [(sampleConfig, sampleConfigText)] (by simp)
  canonicalize _ := none
  crates := .standIn (.ofTable [(sampleHeader, sampleHeaderText)] (by simp))
    (.ofTable [] Contents.noIndexTexts) (.ofTable [] Contents.noPersistenceTexts)
  draws _ := sampleDraw
  clock n := n
  clock_mono := monotone_id
  timestamp _ := "2026-01-01T00:00:00.000Z"

def sampleRoot : VaultRoot := ⟨"/home/root"⟩

def sampleVaultDir : PathBuf := "/home/root/.upriv/vaults/notes"

/-- A vault with that header. -/
def sampleDisk : Disk where
  files path :=
    if path = sampleVaultDir ++ "/config.toml" then some (utf8 sampleConfigText.toList)
    else if path = sampleVaultDir ++ "/contents/vault.header" then
      some (utf8 sampleHeaderText.toList)
    else none
  dirs := {sampleVaultDir}
  calls := 0

end Upriv.Vault
