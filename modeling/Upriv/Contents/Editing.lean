import Upriv.Contents.Overwrite
import Upriv.Contents.Unlock
import Upriv.Support.Runs
import Upriv.Support.SavedMap

/-!
# Editing an opened store

`contents/mod.rs` over time: files are written through the index in memory, `flush_index`
seals that index, and the store may be opened again at any moment, which takes the sealed
index.  A reader sees two maps from logical paths to contents, one through each index.
-/

namespace Upriv.Contents

open FallibleM

variable {U : UuidCrate}

/-- An opened store and the disk that it lies on. -/
structure Editing (U : UuidCrate) where
  store : OpenedStore U
  disk : Disk

namespace Editing

/-- What the chunk writer works on. -/
def contents (s : Editing U) : ContentsStore := ⟨s.store.index, s.disk.files⟩

def setContents (s : Editing U) (t : ContentsStore) : Editing U :=
  { store := { s.store with index := t.index }, disk := { s.disk with files := t.files } }

end Editing

/-- The calls on an opened store, with their outcomes. -/
inductive EditEvent (U : UuidCrate) where
  | wrote (call : WriteCall U)
  | writeFailed (call : WriteCall U)
  | flushed
  | flushFailed
  | opened (password : Bytes)
  | openFailed (password : Bytes)

section
variable (C : StoreCrates U) (faults : Upriv.Faults) (draws : ℕ → StoreDraws U)
  (contentsDir : PathBuf)

def createEmptyStore (password : Bytes) (preset : KdfUnlockPreset) : FsM (VaultHeader U) := do
  let (header, _, indexKey) ← createStoreCore C faults draws contentsDir password preset
  saveSealedIndex C faults draws contentsDir header indexKey .empty
  return header

def flushIndex (store : OpenedStore U) : FsM Unit :=
  saveSealedIndex C faults draws contentsDir store.header store.indexKey store.index

def Editing.write (s : Editing U) (call : WriteCall U) : Result PUnit × ContentsStore :=
  exec (writeLogicalFile C.xchacha contentsDir s.store.header s.store.contentKey call) s.contents

/-- The index in memory changes with the files, also when the write fails. -/
def editStep (s : Editing U) : EditEvent U → Option (Editing U)
  | .wrote call =>
    match s.write C contentsDir call with
    | (.ok _, t) => some (s.setContents t)
    | (.error _, _) => none
  | .writeFailed call =>
    match s.write C contentsDir call with
    | (.ok _, _) => none
    | (.error _, t) => some (s.setContents t)
  | .flushed =>
    match (flushIndex C faults draws contentsDir s.store).exec s.disk with
    | (.ok _, d) => some { s with disk := d }
    | (.error _, _) => none
  | .flushFailed =>
    match (flushIndex C faults draws contentsDir s.store).exec s.disk with
    | (.ok _, _) => none
    | (.error _, d) => some { s with disk := d }
  | .opened password =>
    match (openStore C faults contentsDir password).exec s.disk with
    | (.ok store, d) => some ⟨store, d⟩
    | (.error _, _) => none
  | .openFailed password =>
    match (openStore C faults contentsDir password).exec s.disk with
    | (.ok _, _) => none
    | (.error _, d) => some { s with disk := d }

/-- What the two indexes of a store read. -/
def Editing.view (s : Editing U) : SavedMap String Bytes where
  live path := (readOpen C contentsDir s.store.header s.store.contentKey s.contents path).toOption
  saved path := (readSealed C contentsDir s.store.header s.store.contentKey s.store.indexKey
    s.contents path).toOption

/-- The entries of both indexes. -/
def Editing.entries (s : Editing U) : List VaultIndexEntry :=
  s.store.index.entries ++
    match sealedIndex C contentsDir s.store.header s.store.indexKey s.contents with
    | .ok index => index.entries
    | .error _ => []

/-- A write that a caller can make: its UUID is new, the operating system tells a missing
file from other failures, and the chunks can be counted. -/
structure Writable (s : Editing U) (call : WriteCall U) : Prop where
  fresh : ∀ e ∈ s.entries C contentsDir, U.parseStr e.fileId ≠ some call.newV4
  honest : HonestRemovals call.faults
  fits : call.plaintext.length ⌈/⌉ s.store.header.chunkSize.toNat < 2 ^ 32

/-- Writes are those that a caller can make, and an opening gives the key of the store or no
key. -/
def EditAllowed (s : Editing U) : EditEvent U → Editing U → Prop
  | .wrote call, _ => Writable C contentsDir s call
  | .writeFailed call, _ => Writable C contentsDir s call
  | .opened attempt, _ => NoOtherKey C s.store.header s.store.masterKey attempt
  | _, _ => True

/-- The logical path that an event writes. -/
def EditEvent.path? : EditEvent U → Option String
  | .wrote call => some call.logicalPath
  | .writeFailed call => some call.logicalPath
  | _ => none

/-- The write of an event, whether it succeeds or fails. -/
def EditEvent.call? : EditEvent U → Option (WriteCall U)
  | .wrote call => some call
  | .writeFailed call => some call
  | _ => none

/-- A flush comes before the first opening. -/
def FlushedFirst : List (EditEvent U) → Prop
  | [] => True
  | .flushed :: _ => True
  | .opened _ :: _ => False
  | _ :: events => FlushedFirst events

/-- What an event does to the two maps.  A write that fails may have lost the file. -/
def EditEvent.Does : EditEvent U → SavedMap.Op String Bytes → Prop
  | .wrote call, op => op = .write call.logicalPath call.plaintext
  | .writeFailed call, op => op = .idle ∨ op = .lose call.logicalPath
  | .flushed, op => op = .save
  | .flushFailed, op => op = .idle
  | .opened _, op => op = .restore
  | .openFailed _, op => op = .idle

end

end Upriv.Contents
