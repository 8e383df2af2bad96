import Upriv.Contents.Chunk
import Upriv.Crates.Store
import Upriv.Fs.Dirs

/-!
# The files of a vault store

`contents/{kdf,header,index,mod}.rs` on the file system: the header with the
wrapped master key, the sealed index, and what opening, creating, flushing and
hashing a store do.  Random values are drawn by the system calls made so far.
-/

namespace Upriv.Contents

/-! ## Key derivation -/

inductive KdfUnlockPreset where
  | m32
  | m64
  | m128
  | m256
  | g1
  | g2
  deriving DecidableEq, Repr

namespace KdfUnlockPreset

def memoryKib : KdfUnlockPreset → UInt32
  | m32 => 32 * 1024
  | m64 => 64 * 1024
  | m128 => 128 * 1024
  | m256 => 256 * 1024
  | g1 => 1024 * 1024
  | g2 => 2048 * 1024

def timeCost : KdfUnlockPreset → UInt32
  | m32 | m64 | m128 | m256 => 3
  | g1 | g2 => 1

def parallelism (_ : KdfUnlockPreset) : UInt32 := 1

end KdfUnlockPreset

def MIN_KDF_MEMORY_KIB : UInt32 := 32 * 1024
def MAX_KDF_MEMORY_KIB : UInt32 := 2048 * 1024
def MAX_KDF_TIME_COST : UInt32 := 16

def kdfParamsInBounds (memoryKib timeCost parallelism : UInt32) : Bool :=
  MIN_KDF_MEMORY_KIB ≤ memoryKib && memoryKib ≤ MAX_KDF_MEMORY_KIB && 0 < timeCost &&
    timeCost ≤ MAX_KDF_TIME_COST && parallelism == 1

/-- Every preset passes its own check. -/
theorem kdfParamsInBounds_preset (preset : KdfUnlockPreset) :
    kdfParamsInBounds preset.memoryKib preset.timeCost preset.parallelism = true := by
  cases preset <;> decide

/-! ## Sealing -/

section
variable {U : UuidCrate}

/-- The random values of one step. -/
structure StoreDraws (U : UuidCrate) where
  masterKey : MasterKey
  salt : Vector UInt8 SALT_LEN
  contentIdentity : U.Uuid
  wrapNonce : XNonce
  indexNonce : Vector UInt8 AES_SIV_NONCE_LEN
  fileId : U.Uuid
  chunkNonce : ℕ → XNonce
  /-- The calls of the chunk writer that the operating system refuses. -/
  chunkFaults : Contents.Faults

def wrapMasterKey (C : StoreCrates U) (nonce : XNonce) (kek : Kek) (master : MasterKey)
    (aad : Bytes) : Result Bytes :=
  encryptXchacha C.xchacha nonce kek master.toList aad

def unwrapMasterKey (C : StoreCrates U) (kek : Kek) (blob aad : Bytes) :
    Result MasterKey := do
  let plain ← decryptXchacha C.xchacha kek blob aad
  if h : plain.length = MASTER_KEY_LEN then .ok ⟨plain.toArray, by simpa using h⟩
  else .error .wrongPassword

def sealIndex (C : StoreCrates U) (nonce : Vector UInt8 AES_SIV_NONCE_LEN)
    (indexKey : IndexKey) (plaintext aad : Bytes) : Result Bytes :=
  if aad.isEmpty then .error (storeErr "AAD required for AES-SIV index seal")
  else
    match C.aesSiv.encrypt indexKey nonce.toList plaintext aad with
    | none => .error (storeErr "AES-SIV index seal failed")
    | some ciphertext => .ok (nonce.toList ++ ciphertext)

def openIndex (C : StoreCrates U) (indexKey : IndexKey) (blob aad : Bytes) :
    Result Bytes :=
  if aad.isEmpty then .error (storeErr "AAD required for AES-SIV index open")
  else if blob.length ≤ AES_SIV_NONCE_LEN then .error (storeErr "index blob truncated")
  else
    let (nonceBytes, rest) := blob.splitAt AES_SIV_NONCE_LEN
    match C.aesSiv.decrypt indexKey nonceBytes rest aad with
    | none => .error (storeErr "AES-SIV index open failed")
    | some plain => .ok plain

def deriveLayerKeys (C : StoreCrates U) (master : MasterKey) :
    Result (ContentKey × IndexKey) :=
  match C.hkdfContent master, C.hkdfIndex master with
  | none, _ => .error (storeErr "HKDF content key expand failed")
  | some _, none => .error (storeErr "HKDF index key expand failed")
  | some content, some index => .ok (content, index)

end

/-! ## Paths -/

def HEADER_FILE_NAME : String := "vault.header"
def INDEX_DIR_NAME : String := "index"
def INDEX_FILE_NAME : String := "root.idx.enc"

def headerPath (contentsDir : PathBuf) : PathBuf := joinPath contentsDir HEADER_FILE_NAME

def indexPath (contentsDir : PathBuf) : PathBuf :=
  joinPath (joinPath contentsDir INDEX_DIR_NAME) INDEX_FILE_NAME

/-! ## The header -/

def AEAD_ID : String := "xchacha20poly1305"
def NAME_CIPHER_ID : String := "aes256-siv"
def KDF_ALG : String := "argon2id"
def CHUNK_SIZE : UInt32 := 256 * 1024

section
variable {U : UuidCrate} (C : StoreCrates U) (faults : Upriv.Faults)
  (draws : ℕ → StoreDraws U)

/-- The allocation of the working buffer is the part that can fail for want of
memory; it counts as a call of the operating system. -/
def tryAllocArgon2Blocks : FsM Unit :=
  FallibleM.op fun d =>
    (if (faults d.calls).isSome then .error .insufficientRam else .ok (),
      { d with calls := d.calls + 1 })

def deriveKek (password salt : Bytes) (memoryKib timeCost p : UInt32) : FsM Kek := do
  FallibleM.ensure (kdfParamsInBounds memoryKib timeCost p)
    (.vaultStoreInvalid HEADER_FILE_NAME "KDF parameters out of bounds")
  tryAllocArgon2Blocks faults
  FallibleM.ofExcept ((C.argon2id password salt memoryKib timeCost p).mapError fun error =>
    .vaultStoreInvalid HEADER_FILE_NAME ("Argon2id failed: " ++ error))

/-- The checks of `load_header` on a parsed header. -/
def validateHeader (path : PathBuf) (header : VaultHeader U) : Result Unit :=
  if header.formatVersion ≠ FORMAT_VERSION then
    .error (.vaultStoreInvalid path
      ("unsupported format_version " ++ Nat.repr header.formatVersion.toNat))
  else if header.kdf.alg ≠ KDF_ALG ∨ header.aead ≠ AEAD_ID ∨
      header.nameCipher ≠ NAME_CIPHER_ID ∨ header.chunkSize ≠ CHUNK_SIZE then
    .error (.vaultStoreInvalid path "unsupported algorithms or chunk size")
  else if !kdfParamsInBounds header.kdf.memoryKib header.kdf.timeCost
      header.kdf.parallelism then
    .error (.vaultStoreInvalid path "KDF parameters out of bounds")
  else .ok ()

def loadHeader (contentsDir : PathBuf) : FsM (VaultHeader U) := do
  let path := headerPath contentsDir
  let d ← get
  FallibleM.ensure (d.isFile path) (.vaultStoreInvalid path "missing vault.header")
  let raw ← readToString faults path
  match C.headerJson.fromStr raw with
  | .error error => throw (.vaultStoreInvalid path ("invalid vault.header: " ++ error))
  | .ok header =>
      FallibleM.ofExcept (validateHeader path header)
      return header

def saveHeader (contentsDir : PathBuf) (header : VaultHeader U) : FsM Unit := do
  let path := headerPath contentsDir
  let body ← FallibleM.ofExcept ((C.headerJson.toString header).mapError fun error =>
    .vaultStoreInvalid path ("serialize vault.header: " ++ error))
  Upriv.writeBytesAtomic faults path (utf8 body.toList)

/-- A header before the master key is wrapped into it. -/
def unwrappedHeader (preset : KdfUnlockPreset) (draw : StoreDraws U) : VaultHeader U where
  formatVersion := FORMAT_VERSION
  contentIdentity := draw.contentIdentity
  kdf := {
    alg := KDF_ALG
    memoryKib := preset.memoryKib
    timeCost := preset.timeCost
    parallelism := preset.parallelism
    saltB64 := C.base64Encode draw.salt.toList }
  aead := AEAD_ID
  nameCipher := NAME_CIPHER_ID
  chunkSize := CHUNK_SIZE
  wrappedMasterKeyB64 := ""

def createHeader (password : Bytes) (preset : KdfUnlockPreset) (draw : StoreDraws U) :
    FsM (VaultHeader U) := do
  let header := unwrappedHeader C preset draw
  let kek ← deriveKek C faults password draw.salt.toList header.kdf.memoryKib
    header.kdf.timeCost header.kdf.parallelism
  let wrapped ← FallibleM.ofExcept
    (wrapMasterKey C draw.wrapNonce kek draw.masterKey (wrapAadBytes header))
  return { header with wrappedMasterKeyB64 := C.base64Encode wrapped }

/-- Salt and wrapped key of a header. -/
def decodeWrap (header : VaultHeader U) : Result (Bytes × Bytes) :=
  match C.base64Decode header.kdf.saltB64, C.base64Decode header.wrappedMasterKeyB64 with
  | some salt, some wrapped =>
      if salt.length ≠ SALT_LEN then .error .wrongPassword else .ok (salt, wrapped)
  | _, _ => .error .wrongPassword

def unwrapHeaderMaster (header : VaultHeader U) (password : Bytes) : FsM MasterKey := do
  let (salt, wrapped) ← FallibleM.ofExcept (decodeWrap C header)
  let kek ← deriveKek C faults password salt header.kdf.memoryKib header.kdf.timeCost
    header.kdf.parallelism
  FallibleM.ofExcept (unwrapMasterKey C kek wrapped (wrapAadBytes header))

/-! ## The index -/

def encodeIndex (index : VaultIndex) : Result Bytes :=
  match C.indexJson.toString index with
  | .error error => .error (.vaultStoreInvalid INDEX_FILE_NAME ("serialize index: " ++ error))
  | .ok text => .ok (utf8 text.toList)

def decodeIndex (bytes : Bytes) : Result VaultIndex :=
  match decodeUtf8 bytes with
  | none => .error (.vaultStoreInvalid INDEX_FILE_NAME "invalid index: invalid unicode")
  | some text =>
    match C.indexJson.fromStr text with
    | .error error => .error (.vaultStoreInvalid INDEX_FILE_NAME ("invalid index: " ++ error))
    | .ok index => .ok index

def saveSealedIndex (contentsDir : PathBuf) (header : VaultHeader U) (indexKey : IndexKey)
    (index : VaultIndex) : FsM Unit := do
  Upriv.createDirAll faults (joinPath contentsDir INDEX_DIR_NAME)
  let plain ← FallibleM.ofExcept (encodeIndex C index)
  let d ← get
  let sealed ← FallibleM.ofExcept
    (sealIndex C (draws d.calls).indexNonce indexKey plain (indexAad header))
  Upriv.writeBytesAtomic faults (indexPath contentsDir) sealed

def loadSealedIndex (contentsDir : PathBuf) (header : VaultHeader U)
    (indexKey : IndexKey) : FsM VaultIndex := do
  let path := indexPath contentsDir
  let d ← get
  FallibleM.ensure (d.isFile path) (.vaultStoreInvalid path "missing index")
  let blob ← readFile faults path
  let plain ← FallibleM.ofExcept (openIndex C indexKey blob (indexAad header))
  let index ← FallibleM.ofExcept (decodeIndex C plain)
  FallibleM.ensure (index.formatVersion = FORMAT_VERSION) (.vaultStoreInvalid path
    ("unsupported index format_version " ++ Nat.repr index.formatVersion.toNat))
  return index

/-! ## The store -/

structure OpenedStore (U : UuidCrate) where
  header : VaultHeader U
  masterKey : MasterKey
  contentKey : ContentKey
  indexKey : IndexKey
  index : VaultIndex

def SEED_LOGICAL_PATH : String := "upriv-seed.txt"

def SEED_TEXT_START : String := "Upriv seed v1\ncontent_identity="

def SEED_TEXT_END : String :=
  "\nThis file is written at vault create to prove chunk AEAD round-trip.\nIt is not a secret.\n"

def seedText (contentIdentity : U.Uuid) : String :=
  SEED_TEXT_START ++ U.toString contentIdentity ++ SEED_TEXT_END

def seedPlaintext (contentIdentity : U.Uuid) : Bytes :=
  utf8 (seedText contentIdentity).toList

/-- Run a step of the chunk writer on the files of the disk. -/
def onContents (x : StoreM PUnit) (index : VaultIndex) : FsM VaultIndex :=
  FallibleM.op fun d =>
    match FallibleM.exec x ⟨index, d.files⟩ with
    | (.ok _, store) => (.ok store.index, { d with files := store.files })
    | (.error error, store) => (.error error, { d with files := store.files })

/-- Wrap a master key and persist `vault.header`. -/
def createStoreCore (contentsDir : PathBuf) (password : Bytes) (preset : KdfUnlockPreset) :
    FsM (VaultHeader U × ContentKey × IndexKey) := do
  Upriv.createDirAll faults (joinPath contentsDir INDEX_DIR_NAME)
  Upriv.createDirAll faults (joinPath contentsDir DATA_DIR_NAME)
  let d ← get
  let header ← createHeader C faults password preset (draws d.calls)
  let (contentKey, indexKey) ← FallibleM.ofExcept
    (deriveLayerKeys C (draws d.calls).masterKey)
  saveHeader C faults contentsDir header
  return (header, contentKey, indexKey)

theorem length_toList_ofList (cs : List Char) :
    (String.ofList cs).toList.length = cs.length := by
  rw [String.toList_ofList]

theorem length_SEED_TEXT_START : SEED_TEXT_START.toList.length = 31 := by
  delta SEED_TEXT_START
  refine (length_toList_ofList _).trans ?_
  decide +kernel

theorem length_SEED_TEXT_END : SEED_TEXT_END.toList.length = 90 := by
  delta SEED_TEXT_END
  refine (length_toList_ofList _).trans ?_
  decide +kernel

theorem length_seedPlaintext_lt (contentIdentity : U.Uuid) :
    (seedPlaintext contentIdentity).length < 2 ^ 64 := by
  have hchars := length_utf8_le (seedText contentIdentity).toList
  have hlength : (seedText contentIdentity).toList.length = 157 := by
    rw [seedText, String.toList_append, String.toList_append, List.length_append,
      List.length_append, U.length_toString, length_SEED_TEXT_START, length_SEED_TEXT_END]
  rw [seedPlaintext]
  omega

/-- `Uuid::new_v4` and the nonces of the seed file. -/
def seedCall (draw : StoreDraws U) (contentIdentity : U.Uuid) : WriteCall U where
  logicalPath := SEED_LOGICAL_PATH
  plaintext := seedPlaintext contentIdentity
  length_lt := length_seedPlaintext_lt contentIdentity
  newV4 := draw.fileId
  nonce := draw.chunkNonce
  faults := draw.chunkFaults

/-- Create `contents/` plus a non-secret seed chunk. -/
def createSeededStore (contentsDir : PathBuf) (password : Bytes)
    (preset : KdfUnlockPreset) : FsM (VaultHeader U) := do
  let (header, contentKey, indexKey) ←
    createStoreCore C faults draws contentsDir password preset
  let d ← get
  let index ← onContents (writeLogicalFile C.xchacha contentsDir header contentKey
    (seedCall (draws d.calls) header.contentIdentity)) VaultIndex.empty
  saveSealedIndex C faults draws contentsDir header indexKey index
  return header

/-- Unlock an existing `contents/`. -/
def openStore (contentsDir : PathBuf) (password : Bytes) : FsM (OpenedStore U) := do
  let header ← loadHeader C faults contentsDir
  let masterKey ← unwrapHeaderMaster C faults header password
  let (contentKey, indexKey) ← FallibleM.ofExcept (deriveLayerKeys C masterKey)
  let index ← loadSealedIndex C faults contentsDir header indexKey
  return ⟨header, masterKey, contentKey, indexKey, index⟩

/-- SHA-256 of header and index ciphertext. -/
def contentHashHex (contentsDir : PathBuf) : FsM String := do
  let headerBytes ← readFile faults (headerPath contentsDir)
  let indexBytes ← readFile faults (indexPath contentsDir)
  return "sha256:" ++ C.sha256Hex (headerBytes ++ indexBytes)

end

end Upriv.Contents
