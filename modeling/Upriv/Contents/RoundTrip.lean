import Upriv.Contents.Read
import Upriv.Contents.Write

/-!
# Chunk store round trip

A successful write makes its plaintext readable under its path and leaves the
reads of all other paths as they were.  The frame part rests on one invariant:
entries of different paths belong to different UUIDs, and UUIDs still to be
drawn belong to no entry.  Every write preserves it, also one that fails.
-/

namespace Upriv.Contents

open FallibleM

variable {U : UuidCrate} {A : XChaCha20Poly1305} {contentsDir : PathBuf}
  {header : VaultHeader U} {contentKey : ContentKey} {call : WriteCall U}
  {calls rest : List (WriteCall U)} {s s' : ContentsStore}

/-! ## The invariant -/

/-- Entries of different paths belong to different UUIDs. -/
def DistinctFileIds (U : UuidCrate) (index : VaultIndex) : Prop :=
  ∀ a ∈ index.entries, ∀ b ∈ index.entries, a.path ≠ b.path →
    ∀ u, U.parseStr a.fileId = some u → U.parseStr b.fileId ≠ some u

/-- The UUIDs that the calls draw are pairwise different and belong to no
entry. -/
def FreshUuids (index : VaultIndex) (calls : List (WriteCall U)) : Prop :=
  (calls.map (·.newV4)).Nodup ∧
  ∀ call ∈ calls, ∀ e ∈ index.entries, U.parseStr e.fileId ≠ some call.newV4

@[simp] theorem parseStr_fileId (call : WriteCall U) :
    U.parseStr call.fileId = some call.newV4 :=
  U.parseStr_toString call.newV4

/-- The state after a sequence of calls, whatever their outcomes. -/
def runWrites (A : XChaCha20Poly1305) (contentsDir : PathBuf)
    (header : VaultHeader U) (contentKey : ContentKey)
    (calls : List (WriteCall U)) (s : ContentsStore) : ContentsStore :=
  calls.foldl (fun s call =>
    (exec (writeLogicalFile A contentsDir header contentKey call) s).2) s

theorem distinctFileIds_write
    (hdistinct : DistinctFileIds U s.index)
    (hfresh : FreshUuids s.index (call :: rest)) :
    DistinctFileIds U
      (exec (writeLogicalFile A contentsDir header contentKey call) s).2.index := by
  have hold := hfresh.2 call List.mem_cons_self
  intro a ha b hb hpath u hau hbu
  rcases mem_entries_writeLogicalFile ha with ha | rfl <;>
    rcases mem_entries_writeLogicalFile hb with hb | rfl
  · exact hdistinct a ha b hb hpath u hau hbu
  · have hu : call.newV4 = u := by simpa [WriteCall.entry] using hbu
    exact hold a ha (hu ▸ hau)
  · have hu : call.newV4 = u := by simpa [WriteCall.entry] using hau
    exact hold b hb (hu ▸ hbu)
  · exact hpath rfl

theorem freshUuids_write (hfresh : FreshUuids s.index (call :: rest)) :
    FreshUuids (exec (writeLogicalFile A contentsDir header contentKey call)
      s).2.index rest := by
  obtain ⟨hnodup, hold⟩ := hfresh
  rw [List.map_cons, List.nodup_cons] at hnodup
  refine ⟨hnodup.2, ?_⟩
  intro later hlater e he
  rcases mem_entries_writeLogicalFile he with he | rfl
  · exact hold later (List.mem_cons_of_mem call hlater) e he
  · intro heq
    have hsame : call.newV4 = later.newV4 := by
      simpa [WriteCall.entry] using heq
    exact hnodup.1 (hsame ▸ List.mem_map_of_mem hlater)

/-- The invariant along a sequence of writes. -/
theorem runWrites_invariant (A : XChaCha20Poly1305) (contentsDir : PathBuf)
    (header : VaultHeader U) (contentKey : ContentKey) {s : ContentsStore}
    (hdistinct : DistinctFileIds U s.index)
    (hfresh : FreshUuids s.index (calls ++ rest)) :
    DistinctFileIds U (runWrites A contentsDir header contentKey calls s).index ∧
    FreshUuids (runWrites A contentsDir header contentKey calls s).index rest := by
  induction calls generalizing s with
  | nil => exact ⟨hdistinct, hfresh⟩
  | cons call calls ih =>
      exact ih (distinctFileIds_write hdistinct hfresh) (freshUuids_write hfresh)

/-- Whatever the outcomes, every entry was there before or was recorded by
one of the calls. -/
theorem mem_entries_runWrites {e : VaultIndexEntry}
    (he : e ∈ (runWrites A contentsDir header contentKey calls s).index.entries) :
    e ∈ s.index.entries ∨ ∃ call ∈ calls, e = call.entry := by
  induction calls generalizing s with
  | nil => exact .inl he
  | cons call calls ih =>
      rcases ih he with he | ⟨later, hlater, rfl⟩
      · rcases mem_entries_writeLogicalFile he with he | rfl
        · exact .inl he
        · exact .inr ⟨call, List.mem_cons_self, rfl⟩
      · exact .inr ⟨later, List.mem_cons_of_mem call hlater, rfl⟩

/-! ## Reading what was written -/

theorem fileSize_toNat (call : WriteCall U) :
    call.fileSize.toNat = call.plaintext.length := by
  rw [WriteCall.fileSize, UInt64.toNat_ofNat', Nat.mod_eq_of_lt call.length_lt]

theorem entry_size_toNat (call : WriteCall U) :
    call.entry.size.toNat = call.plaintext.length :=
  fileSize_toNat call

/-- The reader recomputes the authenticated data the writer used. -/
theorem expectedAad_eq_sliceAad {k : ℕ} (hk : k < 2 ^ 32) :
    expectedAad header call.entry (UInt32.ofNat k) =
      sliceAad header call (slice header.chunkSize.toNat k call.plaintext) k := by
  have hlen := chunkPlainLen_eq_length_slice (fileSize_toNat call)
    (UInt32.ofNat k) header.chunkSize
  rw [UInt32.toNat_ofNat', Nat.mod_eq_of_lt hk] at hlen
  rw [expectedAad, sliceAad, ← hlen, UInt32.ofNat_toNat]
  rfl

theorem readChunk_of_sliceStored {k : ℕ} (hk : k < 2 ^ 32)
    (hstored : SliceStored A contentsDir header contentKey call s k) :
    readChunk A contentsDir header contentKey s.read call.entry (UInt32.ofNat k) =
      .ok (slice header.chunkSize.toNat k call.plaintext) := by
  obtain ⟨blob, hblob, hfile⟩ := hstored
  have hlen := chunkPlainLen_eq_length_slice (fileSize_toNat call)
    (UInt32.ofNat k) header.chunkSize
  rw [UInt32.toNat_ofNat', Nat.mod_eq_of_lt hk] at hlen
  apply readChunk_of_decrypts (parseStr_fileId call)
  · rw [ContentsStore.read, hfile]
  · rw [expectedAad_eq_sliceAad hk]
    exact decryptXchacha_encryptXchacha hblob
  · exact hlen.symm

theorem read_written
    (hfits : call.plaintext.length ⌈/⌉ header.chunkSize.toNat < 2 ^ 32)
    (hok : exec (writeLogicalFile A contentsDir header contentKey call) s =
      (.ok ⟨⟩, s')) :
    readLogicalFile A contentsDir header contentKey s'.read s'.index
      call.logicalPath = .ok call.plaintext := by
  obtain ⟨hchunk, hindex, hstored⟩ := writeLogicalFile_ok hok
  have hpos : 0 < header.chunkSize.toNat := by
    rw [Nat.pos_iff_ne_zero]
    exact fun h => hchunk (UInt32.toNat_inj.mp h)
  have hcount : (chunkCount call.entry.size header.chunkSize).toNat =
      call.plaintext.length ⌈/⌉ header.chunkSize.toNat := by
    rw [chunkCount_toNat _ hchunk, entry_size_toNat, Nat.mod_eq_of_lt hfits]
  have hfind : s'.index.find call.logicalPath = some call.entry := by
    rw [hindex, find_push, find_retain_self]
    simp [WriteCall.entry]
  apply readLogicalFile_of_chunks call.entry hfind (parseStr_fileId call)
    (g := fun k => slice header.chunkSize.toNat k call.plaintext)
  · intro k hk
    rw [hcount] at hk
    exact readChunk_of_sliceStored (by omega) (hstored (by omega) k hk)
  · rw [hcount]
    exact flatMap_slice hpos call.plaintext
  · rfl

/-! ## Reading everything else -/

theorem read_other (hdistinct : DistinctFileIds U s.index)
    (hfresh : FreshUuids s.index [call]) {path : String}
    (hne : path ≠ call.logicalPath)
    (hok : exec (writeLogicalFile A contentsDir header contentKey call) s =
      (.ok ⟨⟩, s')) :
    readLogicalFile A contentsDir header contentKey s'.read s'.index path =
      readLogicalFile A contentsDir header contentKey s.read s.index path := by
  obtain ⟨_, hindex, _⟩ := writeLogicalFile_ok hok
  have hfind : s'.index.find path = s.index.find path := by
    rw [hindex, find_push, find_retain_of_ne hne]
    simp [WriteCall.entry, Ne.symm hne]
  -- the files of the overwritten entry and of the new UUID
  let P : Set PathBuf := { p | ∃ e u, s.index.find call.logicalPath = some e ∧
      U.parseStr e.fileId = some u ∧ p ∈ chunkPathsOf U contentsDir u } ∪
    chunkPathsOf U contentsDir call.newV4
  have hframe : SameFilesExcept P s s' := by
    have h : SameFilesExcept P s
        (exec (writeLogicalFile A contentsDir header contentKey call) s).2 :=
      sameFilesExcept_writeLogicalFile
        (fun e u i hfind hparse => .inl ⟨e, u, hfind, hparse, chunkPathOf_mem u i⟩)
        (fun i => .inr (chunkPathOf_mem call.newV4 i))
    rwa [hok] at h
  apply readLogicalFile_congr hfind
  intro entry u i hentry hparse _
  rw [hfind] at hentry
  have hmem := mem_of_find hentry
  have hout : chunkPathOf U contentsDir u (UInt32.ofNat i) ∉ P := by
    rintro (⟨e, v, he, hv, hin⟩ | hin)
    · have hpaths : entry.path ≠ e.path := by
        rw [path_of_find hentry, path_of_find he]
        exact hne
      have hids := hdistinct entry hmem e (mem_of_find he) hpaths u hparse
      refine chunkPathOf_not_mem (v := v) ?_ _ hin
      rintro rfl
      exact hids hv
    · refine chunkPathOf_not_mem (v := call.newV4) ?_ _ hin
      rintro rfl
      exact hfresh.2 call List.mem_cons_self entry hmem hparse
  rw [ContentsStore.read, ContentsStore.read, hframe _ hout]

/-- Round trip and frame after any sequence of earlier writes. -/
theorem writeLogicalFile_roundTrip (A : XChaCha20Poly1305)
    (contentsDir : PathBuf) (header : VaultHeader U) (contentKey : ContentKey)
    (s : ContentsStore) (earlier : List (WriteCall U)) (call : WriteCall U)
    (s' : ContentsStore)
    (hdistinct : DistinctFileIds U s.index)
    (hfresh : FreshUuids s.index (earlier ++ [call]))
    (hfits : call.plaintext.length ⌈/⌉ header.chunkSize.toNat < 2 ^ 32)
    (hok : exec (writeLogicalFile A contentsDir header contentKey call)
      (runWrites A contentsDir header contentKey earlier s) = (.ok ⟨⟩, s')) :
    readLogicalFile A contentsDir header contentKey s'.read s'.index
        call.logicalPath = .ok call.plaintext ∧
    (∀ path, path ≠ call.logicalPath →
      readLogicalFile A contentsDir header contentKey s'.read s'.index path =
        readLogicalFile A contentsDir header contentKey
          (runWrites A contentsDir header contentKey earlier s).read
          (runWrites A contentsDir header contentKey earlier s).index path) ∧
    s'.index.entries =
      (runWrites A contentsDir header contentKey earlier s).index.entries.filter
        (·.path != call.logicalPath) ++ [call.entry] := by
  obtain ⟨hdistinct, hfresh⟩ := runWrites_invariant A contentsDir header
    contentKey hdistinct hfresh
  refine ⟨read_written hfits hok, ?_, ?_⟩
  · exact fun path hne => read_other hdistinct hfresh hne hok
  · rw [(writeLogicalFile_ok hok).2.1]
    rfl

/-! ## Sample stores -/

def sampleUuid (last : Char)
    (h : UuidCrate.isHyphenated
      ("00000000-0000-4000-8000-00000000000".toList ++ [last]) = true) :
    UuidCrate.hyphenated.Uuid :=
  ⟨_, h⟩

def uuidA : UuidCrate.hyphenated.Uuid := sampleUuid 'a' (by decide)
def uuidB : UuidCrate.hyphenated.Uuid := sampleUuid 'b' (by decide)

def sampleHeader : VaultHeader UuidCrate.hyphenated where
  formatVersion := 1
  contentIdentity := uuidA
  kdf := ⟨"argon2id", 32768, 3, 1, "c2FsdA"⟩
  aead := "xchacha20poly1305"
  nameCipher := "aes-siv"
  chunkSize := 2
  wrappedMasterKeyB64 := ""

def sampleCipher : XChaCha20Poly1305 := AeadCrate.transparent 32
def sampleKey : ContentKey := Vector.replicate 32 1

/-- A write that no file-system call refuses. -/
def sampleCall (path : String) (plaintext : Bytes)
    (newV4 : UuidCrate.hyphenated.Uuid) (h : plaintext.length < 2 ^ 64) :
    WriteCall UuidCrate.hyphenated where
  logicalPath := path
  plaintext := plaintext
  length_lt := h
  newV4 := newV4
  nonce := fun _ => Vector.replicate 24 0
  faults := fun _ => none

def emptyStore : ContentsStore := ⟨.empty, fun _ => none⟩

def write123 : WriteCall UuidCrate.hyphenated :=
  sampleCall "a" [1, 2, 3] uuidA (by decide)

def write4 : WriteCall UuidCrate.hyphenated :=
  sampleCall "a" [4] uuidB (by decide)

def store123 : ContentsStore :=
  runWrites sampleCipher "contents" sampleHeader sampleKey [write123] emptyStore

theorem logicalPathInvalid_sampleCall (plaintext : Bytes)
    (newV4 : UuidCrate.hyphenated.Uuid) (h : plaintext.length < 2 ^ 64) :
    logicalPathInvalid (sampleCall "a" plaintext newV4 h).logicalPath = false := by
  simp only [sampleCall, logicalPathInvalid, String.reduceToList]
  decide

theorem write4_succeeds :
    (exec (writeLogicalFile sampleCipher "contents" sampleHeader sampleKey write4)
      store123).1 = .ok ⟨⟩ := by
  refine writeLogicalFile_succeeds (logicalPathInvalid_sampleCall _ _ _) (by decide)
    (fun _ => rfl) (fun _ _ _ _ => rfl) fun e he => ?_
  have hmem := mem_of_find he
  rw [store123] at hmem
  rcases mem_entries_runWrites hmem with h | ⟨call, hcall, rfl⟩
  · simp [emptyStore, VaultIndex.empty] at h
  · exact ⟨call.newV4, parseStr_fileId call⟩

theorem writeLogicalFile_roundTrip_sample :
    ∃ s', exec (writeLogicalFile sampleCipher "contents" sampleHeader sampleKey
        write4) store123 = (.ok ⟨⟩, s') ∧
      readLogicalFile sampleCipher "contents" sampleHeader sampleKey s'.read
        s'.index "a" = .ok [4] := by
  obtain ⟨s', hok⟩ := exists_exec_eq write4_succeeds
  exact ⟨s', hok, (writeLogicalFile_roundTrip sampleCipher "contents" sampleHeader
    sampleKey emptyStore [write123] write4 s'
    (by simp [DistinctFileIds, emptyStore, VaultIndex.empty])
    ⟨by decide, by simp [emptyStore, VaultIndex.empty]⟩
    (by decide) hok).1⟩

/-! ### Two entries with one file id -/

def write7 : WriteCall UuidCrate.hyphenated :=
  sampleCall "b" [7] uuidA (by decide)

def overwriteA : WriteCall UuidCrate.hyphenated :=
  sampleCall "a" [] uuidB (by decide)

/-- Both entries name the same UUID, whose chunk holds the content of `b`. -/
def sharedStore : ContentsStore where
  index := ⟨FORMAT_VERSION, [write7.entry, ⟨write7.fileId, "a", 1⟩]⟩
  files path :=
    if path = chunkPathOf UuidCrate.hyphenated "contents" write7.newV4
        (UInt32.ofNat 0) then
      (encryptXchacha sampleCipher (write7.nonce 0) sampleKey [7]
        (sliceAad sampleHeader write7 [7] 0)).toOption
    else none

theorem sliceStored_sharedStore :
    SliceStored sampleCipher "contents" sampleHeader sampleKey write7 sharedStore 0 := by
  have haad : sliceAad sampleHeader write7 [7] 0 ≠ [] :=
    storeAadBytes_ne_nil sampleHeader "chunk" _
  obtain ⟨blob, hblob⟩ :=
    encryptXchacha_succeeds sampleCipher (write7.nonce 0) sampleKey [7] haad rfl
  refine ⟨blob, hblob, ?_⟩
  have hfile : sharedStore.files
      (chunkPathOf UuidCrate.hyphenated "contents" write7.newV4 (UInt32.ofNat 0)) =
        (encryptXchacha sampleCipher (write7.nonce 0) sampleKey [7]
          (sliceAad sampleHeader write7 [7] 0)).toOption := by
    simp only [sharedStore, ↓reduceIte]
  rw [hblob] at hfile
  exact hfile

theorem read_sharedStore :
    readLogicalFile sampleCipher "contents" sampleHeader sampleKey sharedStore.read
      sharedStore.index "b" = .ok [7] := by
  apply readLogicalFile_of_chunks (g := fun _ => [7]) write7.entry
    rfl (parseStr_fileId write7)
  · intro k hk
    have hk0 : k = 0 := by
      have hcount : (chunkCount write7.entry.size sampleHeader.chunkSize).toNat = 1 := by
        decide
      omega
    subst hk0
    exact readChunk_of_sliceStored (by omega) sliceStored_sharedStore
  · decide
  · decide

theorem parseStr_sharedStore {e : VaultIndexEntry}
    (he : e ∈ sharedStore.index.entries) :
    UuidCrate.hyphenated.parseStr e.fileId = some write7.newV4 := by
  rcases List.mem_pair.mp he with rfl | rfl
  · exact parseStr_fileId write7
  · exact parseStr_fileId write7

theorem overwriteA_succeeds :
    (exec (writeLogicalFile sampleCipher "contents" sampleHeader sampleKey overwriteA)
      sharedStore).1 = .ok ⟨⟩ :=
  writeLogicalFile_succeeds (logicalPathInvalid_sampleCall _ _ _) (by decide)
    (fun _ => rfl) (fun _ _ _ _ => rfl)
    fun _ he => ⟨write7.newV4, parseStr_sharedStore (mem_of_find he)⟩

/-- Overwriting `a` removes the chunk of `b`. -/
theorem overwrite_breaks_shared_fileId :
    FreshUuids sharedStore.index [overwriteA] ∧
    readLogicalFile sampleCipher "contents" sampleHeader sampleKey sharedStore.read
      sharedStore.index "b" = .ok [7] ∧
    ∃ s', exec (writeLogicalFile sampleCipher "contents" sampleHeader sampleKey
        overwriteA) sharedStore = (.ok ⟨⟩, s') ∧
      readLogicalFile sampleCipher "contents" sampleHeader sampleKey s'.read
        s'.index "b" = .error (.vaultStoreInvalid
          (chunkPathOf UuidCrate.hyphenated "contents" write7.newV4 0)
          "missing chunk") := by
  obtain ⟨s', hok⟩ := exists_exec_eq overwriteA_succeeds
  refine ⟨⟨by decide, ?_⟩, read_sharedStore, s', hok, ?_⟩
  · intro call hcall e he
    rw [List.mem_singleton.mp hcall, parseStr_sharedStore he]
    decide
  · have hfind : sharedStore.index.find overwriteA.logicalPath =
        some ⟨write7.fileId, "a", 1⟩ := rfl
    have hgone := writeLogicalFile_removes (fun _ _ hfault => by cases hfault) hfind
      (parseStr_fileId write7) (by decide) hok 0 (by decide)
    apply readLogicalFile_missing_first write7.entry ?_
      (parseStr_fileId write7) (by decide)
    · rw [ContentsStore.read]
      simp only [UInt32.reduceOfNat] at hgone
      rw [hgone]
    · rw [(writeLogicalFile_ok hok).2.1]
      rfl

end Upriv.Contents
