import Upriv.Config.VaultConfig.Load
import Upriv.Contents.StoreFiles

/-!
# Vaults of one process, one call at a time

What the vault operations work on when calls do not overlap: the disk, the
session map and the unlock throttle of `session/mod.rs`.  `Instant::now` is a
clock that does not go back; the `n`-th reading of it is `clock n`.
-/

namespace Upriv.Vault

open Contents (VaultHeader VaultIndex VaultPersistence StoreCrates StoreDraws MasterKey
  ContentKey IndexKey)

/-- An unlocked vault. -/
structure OpenSession (U : UuidCrate) where
  vaultId : String
  vaultDir : PathBuf
  header : VaultHeader U
  masterKey : MasterKey
  contentKey : ContentKey
  indexKey : IndexKey
  index : VaultIndex
  securityMode : VaultSecurityMode
  dirty : Bool := false

/-- An absent entry of the throttle map is an empty one. -/
structure UnlockThrottle where
  failures : List ℕ := []
  blockedUntil : Option ℕ := none

structure World (U : UuidCrate) where
  disk : Disk
  sessions : PathBuf → Option (OpenSession U)
  throttle : PathBuf → UnlockThrottle
  /-- Readings of the clock so far. -/
  clockReads : ℕ

abbrev VaultM (U : UuidCrate) := FallibleM UprivError (World U)

/-- What the operations are run with. -/
structure VaultEnv (U : UuidCrate) where
  faults : Upriv.Faults
  /-- What a failing `remove_dir_all` leaves. -/
  leftover : ℕ → PathBuf → Bool
  codec : TomlCodec VaultConfig
  canonicalize : Canonicalize
  crates : StoreCrates U
  draws : ℕ → StoreDraws U
  /-- Nanoseconds. -/
  clock : ℕ → ℕ
  clock_mono : Monotone clock
  /-- `utc_timestamp_iso_millis`, by the system calls made so far. -/
  timestamp : ℕ → String

section
variable {U : UuidCrate}

/-- No session, no failure; any disk. -/
def World.fresh (disk : Disk) : World U where
  disk := disk
  sessions _ := none
  throttle _ := {}
  clockReads := 0

def World.setSession (w : World U) (dir : PathBuf) (session : Option (OpenSession U)) :
    World U :=
  { w with sessions := Function.update w.sessions dir session }

def World.setThrottle (w : World U) (dir : PathBuf) (state : UnlockThrottle) : World U :=
  { w with throttle := Function.update w.throttle dir state }

/-- Run a computation on the disk. -/
def onDisk {α : Type} (x : FsM α) : VaultM U α :=
  FallibleM.op fun w =>
    ((FallibleM.exec x w.disk).1, { w with disk := (FallibleM.exec x w.disk).2 })

@[simp] theorem exec_onDisk {α : Type} (x : FsM α) (w : World U) :
    FallibleM.exec (onDisk x) w =
      ((FallibleM.exec x w.disk).1, { w with disk := (FallibleM.exec x w.disk).2 }) := rfl

/-! ## The session map -/

def insertSession (session : OpenSession U) : VaultM U Unit :=
  FallibleM.op fun w =>
    if (w.sessions session.vaultDir).isSome then
      (.error (.vaultAlreadyOpen session.vaultId), w)
    else (.ok (), w.setSession session.vaultDir (some session))

def takeSession (vaultDir : PathBuf) : VaultM U (OpenSession U) :=
  FallibleM.op fun w =>
    match w.sessions vaultDir with
    | none => (.error (.vaultNotOpen vaultDir), w)
    | some session => (.ok session, w.setSession vaultDir none)

/-! ## The unlock throttle -/

def SECOND : ℕ := 10 ^ 9
def FAILURE_WINDOW : ℕ := 60 * SECOND
def BLOCK_DURATION : ℕ := 60 * SECOND
def FAILURES_BEFORE_BLOCK : ℕ := 5

section
variable (env : VaultEnv U)

/-- `Instant::now`. -/
def instantNow : VaultM U ℕ :=
  FallibleM.op fun w => (.ok (env.clock w.clockReads), { w with clockReads := w.clockReads + 1 })

/-- Fail closed if this vault is in the 60 s block window. -/
def checkUnlockAllowed (vaultDir : PathBuf) : VaultM U Unit := do
  let now ← instantNow env
  let w ← get
  match (w.throttle vaultDir).blockedUntil with
  | none => return ()
  | some blockedUntil =>
      FallibleM.ensure (¬ now < blockedUntil)
        (.vaultUnlockBlocked (max ((blockedUntil - now) / SECOND) 1))
      modify fun w => w.setThrottle vaultDir {}

def recordUnlockSuccess (vaultDir : PathBuf) : VaultM U Unit :=
  modify fun w => w.setThrottle vaultDir {}

/-- The state after a failure at `now`. -/
def UnlockThrottle.fail (state : UnlockThrottle) (now : ℕ) : UnlockThrottle :=
  let failures := state.failures.filter (fun failedAt => now - failedAt < FAILURE_WINDOW) ++ [now]
  if FAILURES_BEFORE_BLOCK ≤ failures.length then ⟨[], some (now + BLOCK_DURATION)⟩
  else ⟨failures, state.blockedUntil⟩

def recordUnlockFailure (vaultDir : PathBuf) : VaultM U Unit := do
  let now ← instantNow env
  let w ← get
  let state := (w.throttle vaultDir).fail now
  set (w.setThrottle vaultDir state)
  FallibleM.ensure (state.failures ≠ [])
    (.vaultUnlockBlocked (BLOCK_DURATION / SECOND))

theorem exec_recordUnlockFailure (vaultDir : PathBuf) (w : World U) :
    (FallibleM.exec (recordUnlockFailure env vaultDir) w).2 =
      ({ w with clockReads := w.clockReads + 1 } : World U).setThrottle vaultDir
        ((w.throttle vaultDir).fail (env.clock w.clockReads)) := by
  rw [recordUnlockFailure, FallibleM.exec_bind, instantNow, FallibleM.exec_op]
  dsimp only
  rw [FallibleM.exec_bind, FallibleM.exec_get]
  dsimp only
  rw [FallibleM.exec_bind, FallibleM.exec_set]
  dsimp only
  rw [FallibleM.ensure]
  split
  · rfl
  · rfl

/-! ## `persistence.json` -/

def PERSISTENCE_FILE_NAME : String := "persistence.json"

def persistencePath (vaultDir : PathBuf) : PathBuf := joinPath vaultDir PERSISTENCE_FILE_NAME

/-- `VaultPersistence::closed`. -/
def persistenceClosed (vaultId displayName : String) (contentHash : Option String)
    (lastCloseOkAt : String) : VaultPersistence where
  formatVersion := 1
  vaultId := vaultId
  displayName := displayName
  syncGeneration := 1
  contentHash := contentHash
  lastCloseOkAt := some lastCloseOkAt
  persistence := "closed"

def loadVaultPersistence (vaultDir : PathBuf) : FsM (Option VaultPersistence) := do
  let path := persistencePath vaultDir
  let d ← get
  if !d.isFile path then return none
  else
    let raw ← readToString env.faults path
    match env.crates.persistenceJson.fromStr raw with
    | .error error =>
        throw (.vaultStoreInvalid path ("invalid persistence.json: " ++ error))
    | .ok parsed => return some parsed

def saveVaultPersistence (vaultDir : PathBuf) (persistence : VaultPersistence) :
    FsM Unit := do
  let path := persistencePath vaultDir
  let body ← FallibleM.ofExcept
    ((env.crates.persistenceJson.toString persistence).mapError fun error =>
      .vaultStoreInvalid path ("serialize persistence.json: " ++ error))
  writeBytesAtomic env.faults path (utf8 body.toList)

end

end

end Upriv.Vault
