import Upriv.Contents.Aead
import Upriv.Contents.Header
import Upriv.Contents.Store
import Upriv.Paths.Join
import Upriv.Support.Chunks

/-!
# Logical files as chunks

`contents/chunk.rs`.  A logical file is cut into slices of the chunk size;
each slice is sealed into a file of its own under `data/`, and the index
records the file id and the size.
-/

namespace Upriv.Contents

def CHUNK_FILE_SUFFIX : String := ".chunk.enc"

/-- `format!("{parsed}.{chunk_index}{CHUNK_FILE_SUFFIX}")`. -/
def chunkFileName (U : UuidCrate) (parsed : U.Uuid) (chunkIndex : UInt32) :
    String :=
  U.toString parsed ++ "." ++ Nat.repr chunkIndex.toNat ++ CHUNK_FILE_SUFFIX

def chunkPathOf (U : UuidCrate) (contentsDir : PathBuf) (parsed : U.Uuid)
    (chunkIndex : UInt32) : PathBuf :=
  joinPath (joinPath contentsDir DATA_DIR_NAME) (chunkFileName U parsed chunkIndex)

def fileIdNotUuid : UprivError :=
  .vaultStoreInvalid DATA_DIR_NAME "file_id is not a UUID"

def chunkFilePath (U : UuidCrate) (contentsDir : PathBuf) (fileId : String)
    (chunkIndex : UInt32) : Result PathBuf :=
  match U.parseStr fileId with
  | none => .error fileIdNotUuid
  | some parsed => .ok (chunkPathOf U contentsDir parsed chunkIndex)

/-- `u64::div_ceil`. -/
def divCeil (a b : UInt64) : UInt64 :=
  if a % b > 0 then a / b + 1 else a / b

def chunkCount (fileSize : UInt64) (chunkSize : UInt32) : UInt32 :=
  if fileSize = 0 then 0
  else (divCeil fileSize (if chunkSize < 1 then 1 else chunkSize).toUInt64).toUInt32

def chunkPlainLen (fileSize : UInt64) (chunkIndex chunkSize : UInt32) : UInt32 :=
  let start := chunkIndex.toUInt64 * chunkSize.toUInt64
  if start ≥ fileSize then 0
  else if fileSize - start ≤ chunkSize.toUInt64 then (fileSize - start).toUInt32
  else chunkSize.toUInt64.toUInt32

def logicalPathInvalid (path : String) : Bool :=
  path.isEmpty || path.toList.head? == some '/' || path.toList.contains '\x00' ||
    path.toList.contains '\\' ||
    (path.toList.splitOn '/').any fun part =>
      part.isEmpty || part == ['.'] || part == ['.', '.']

def validateLogicalPath (path : String) : Result PUnit :=
  if logicalPathInvalid path then
    .error (.vaultStoreInvalid path "invalid logical path")
  else .ok ⟨⟩

/-! ## Writing -/

/-- One call of `write_logical_file`: its arguments, the random values it
draws and the file-system calls that fail. -/
structure WriteCall (U : UuidCrate) where
  logicalPath : String
  plaintext : Bytes
  /-- The length of a slice is a `usize`. -/
  length_lt : plaintext.length < 2 ^ 64
  newV4 : U.Uuid
  nonce : ℕ → XNonce
  faults : Faults

section
variable {U : UuidCrate}

def WriteCall.fileId (call : WriteCall U) : String := U.toString call.newV4

def WriteCall.fileSize (call : WriteCall U) : UInt64 :=
  UInt64.ofNat call.plaintext.length

def WriteCall.entry (call : WriteCall U) : VaultIndexEntry :=
  ⟨call.fileId, call.logicalPath, call.fileSize⟩

def removeFileChunks (U : UuidCrate) (contentsDir : PathBuf) (faults : Faults)
    (fileId : String) (fileSize : UInt64) (chunkSize : UInt32) : StoreM PUnit :=
  forM (List.range (chunkCount fileSize chunkSize).toNat) fun index => do
    let path ← FallibleM.ofExcept
      (chunkFilePath U contentsDir fileId (UInt32.ofNat index))
    removeFile faults path

/-- Overwriting: the chunks of the old file go first, then its entry. -/
def removeExisting (contentsDir : PathBuf) (header : VaultHeader U)
    (call : WriteCall U) : StoreM PUnit := do
  let store ← get
  match store.index.find call.logicalPath with
  | none => pure ⟨⟩
  | some existing => do
      removeFileChunks U contentsDir call.faults existing.fileId existing.size
        header.chunkSize
      modify fun s => { s with index := s.index.retain call.logicalPath }

/-- The associated data of one slice as it is written. -/
def sliceAad (header : VaultHeader U) (call : WriteCall U) (slice : Bytes)
    (chunkIndex : ℕ) : Bytes :=
  chunkAad header call.fileId (UInt32.ofNat chunkIndex) call.fileSize
    (UInt32.ofNat slice.length)

def writeChunk (A : XChaCha20Poly1305) (contentsDir : PathBuf)
    (header : VaultHeader U) (contentKey : ContentKey) (call : WriteCall U)
    (chunk : Bytes × ℕ) : StoreM PUnit := do
  let blob ← FallibleM.ofExcept (encryptXchacha A (call.nonce chunk.2) contentKey
    chunk.1 (sliceAad header call chunk.1 chunk.2))
  let path ← FallibleM.ofExcept
    (chunkFilePath U contentsDir call.fileId (UInt32.ofNat chunk.2))
  writeBytesAtomic call.faults path blob

/-- `plaintext.chunks(chunk_size).enumerate()`. -/
def WriteCall.slices (call : WriteCall U) (chunkSize : UInt32) :
    List (Bytes × ℕ) :=
  (chunks chunkSize.toNat call.plaintext).zipIdx

def writeLogicalFile (A : XChaCha20Poly1305) (contentsDir : PathBuf)
    (header : VaultHeader U) (contentKey : ContentKey) (call : WriteCall U) :
    StoreM PUnit := do
  FallibleM.ofExcept (validateLogicalPath call.logicalPath)
  if header.chunkSize = 0 then
    throw (.vaultStoreInvalid DATA_DIR_NAME "chunk_size is zero")
  else do
    removeExisting contentsDir header call
    createDirAll call.faults (joinPath contentsDir DATA_DIR_NAME)
    forM (call.slices header.chunkSize)
      (writeChunk A contentsDir header contentKey call)
    modify fun s => { s with index := s.index.push call.entry }

/-! ## Reading -/

/-- `std::fs::read` with its errors mapped. -/
def readBlob (read : PathBuf → Except IoError Bytes) (path : PathBuf) :
    Result Bytes :=
  match read path with
  | .ok blob => .ok blob
  | .error error =>
      if error.kind = .notFound then
        .error (.vaultStoreInvalid path "missing chunk")
      else .error (.io error)

/-- `decrypt_xchacha` with its error mapped. -/
def openChunk (A : XChaCha20Poly1305) (contentKey : ContentKey)
    (path : PathBuf) (blob aad : Bytes) : Result Bytes :=
  match decryptXchacha A contentKey blob aad with
  | .ok plain => .ok plain
  | .error .wrongPassword => .error (.vaultStoreInvalid path "chunk tag failed")
  | .error error => .error error

/-- One round of the loop in `read_logical_file`. -/
def readChunk (A : XChaCha20Poly1305) (contentsDir : PathBuf)
    (header : VaultHeader U) (contentKey : ContentKey)
    (read : PathBuf → Except IoError Bytes) (entry : VaultIndexEntry)
    (chunkIndex : UInt32) : Result Bytes := do
  let expectedLen := chunkPlainLen entry.size chunkIndex header.chunkSize
  let path ← chunkFilePath U contentsDir entry.fileId chunkIndex
  let blob ← readBlob read path
  let aad := chunkAad header entry.fileId chunkIndex entry.size expectedLen
  let plain ← openChunk A contentKey path blob aad
  if plain.length ≠ expectedLen.toNat then
    .error (.vaultStoreInvalid path "chunk length mismatch")
  else .ok plain

def readLogicalFile (A : XChaCha20Poly1305) (contentsDir : PathBuf)
    (header : VaultHeader U) (contentKey : ContentKey)
    (read : PathBuf → Except IoError Bytes) (index : VaultIndex)
    (logicalPath : String) : Result Bytes :=
  match index.find logicalPath with
  | none => .error (.vaultStoreInvalid logicalPath "logical path not in index")
  | some entry =>
    match U.parseStr entry.fileId with
    | none => .error fileIdNotUuid
    | some _ => do
      let out ← extendM
        (fun chunkIndex => readChunk A contentsDir header contentKey read entry
          (UInt32.ofNat chunkIndex))
        (List.range (chunkCount entry.size header.chunkSize).toNat) []
      if UInt64.ofNat out.length ≠ entry.size then
        .error (.vaultStoreInvalid logicalPath "reassembled file size mismatch")
      else .ok out

end

end Upriv.Contents
