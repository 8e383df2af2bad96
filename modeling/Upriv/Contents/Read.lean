import Upriv.Contents.ChunkSize

/-!
# What a read depends on

A read of a logical path depends on its index entry and on the chunk files of
the entry's UUID, and a successful read is the concatenation of chunks that
opened under the authenticated data the reader recomputed.
-/

namespace Upriv.Contents

variable {U : UuidCrate} {A : XChaCha20Poly1305} {contentsDir : PathBuf}
  {header : VaultHeader U} {contentKey : ContentKey}
  {read read' : PathBuf → Except IoError Bytes} {index index' : VaultIndex}
  {entry : VaultIndexEntry} {path : String} {u : U.Uuid} {i : UInt32}

/-- The authenticated data the reader recomputes for a chunk. -/
def expectedAad (header : VaultHeader U) (entry : VaultIndexEntry)
    (chunkIndex : UInt32) : Bytes :=
  chunkAad header entry.fileId chunkIndex entry.size
    (chunkPlainLen entry.size chunkIndex header.chunkSize)

theorem openChunk_eq_ok {blob aad plain : Bytes} {filePath : PathBuf} :
    openChunk A contentKey filePath blob aad = .ok plain ↔
      decryptXchacha A contentKey blob aad = .ok plain := by
  unfold openChunk
  cases h : decryptXchacha A contentKey blob aad with
  | ok opened => simp
  | error e => simp [decryptXchacha_error h]

theorem readBlob_eq_ok {blob : Bytes} {filePath : PathBuf} :
    readBlob read filePath = .ok blob ↔ read filePath = .ok blob := by
  unfold readBlob
  cases read filePath with
  | ok bytes => simp
  | error e => dsimp only; split <;> simp

theorem readChunk_of_decrypts {blob plain : Bytes}
    (hparse : U.parseStr entry.fileId = some u)
    (hread : read (chunkPathOf U contentsDir u i) = .ok blob)
    (hdecrypt : decryptXchacha A contentKey blob (expectedAad header entry i) =
      .ok plain)
    (hlen : plain.length =
      (chunkPlainLen entry.size i header.chunkSize).toNat) :
    readChunk A contentsDir header contentKey read entry i = .ok plain := by
  have hopen : openChunk A contentKey (chunkPathOf U contentsDir u i) blob
      (chunkAad header entry.fileId i entry.size
        (chunkPlainLen entry.size i header.chunkSize)) = .ok plain :=
    openChunk_eq_ok.mpr hdecrypt
  unfold readChunk
  rw [chunkFilePath_of_parseStr hparse, except_ok_bind, readBlob_eq_ok.mpr hread,
    except_ok_bind]
  dsimp only
  rw [hopen, except_ok_bind, if_neg (not_not.mpr hlen)]

/-- A chunk that was read is from a file of the entry, opened under the expected
authenticated data and has the expected length. -/
theorem readChunk_eq_ok {plain : Bytes}
    (h : readChunk A contentsDir header contentKey read entry i = .ok plain) :
    (∃ u blob, U.parseStr entry.fileId = some u ∧
      read (chunkPathOf U contentsDir u i) = .ok blob ∧
      decryptXchacha A contentKey blob (expectedAad header entry i) = .ok plain) ∧
    plain.length = (chunkPlainLen entry.size i header.chunkSize).toNat := by
  unfold readChunk at h
  obtain ⟨filePath, hpath, h⟩ := except_bind_eq_ok.mp h
  obtain ⟨u, hparse, rfl⟩ := chunkFilePath_ok hpath
  obtain ⟨blob, hread, h⟩ := except_bind_eq_ok.mp h
  obtain ⟨opened, hopened, h⟩ := except_bind_eq_ok.mp h
  split at h
  · cases h
  · rename_i hlen
    cases h
    exact ⟨⟨u, blob, hparse, readBlob_eq_ok.mp hread, openChunk_eq_ok.mp hopened⟩,
      not_not.mp hlen⟩

theorem readChunk_congr
    (h : ∀ u, U.parseStr entry.fileId = some u →
      read (chunkPathOf U contentsDir u i) = read' (chunkPathOf U contentsDir u i)) :
    readChunk A contentsDir header contentKey read entry i =
      readChunk A contentsDir header contentKey read' entry i := by
  unfold readChunk
  cases hpath : chunkFilePath U contentsDir entry.fileId i with
  | error e => rfl
  | ok filePath =>
      obtain ⟨u, hparse, rfl⟩ := chunkFilePath_ok hpath
      have hblob : readBlob read (chunkPathOf U contentsDir u i) =
          readBlob read' (chunkPathOf U contentsDir u i) := by
        rw [readBlob, readBlob, h u hparse]
      simp only [except_ok_bind, hblob]

/-- Reads of a path agree when its entry and the entry's chunk files do. -/
theorem readLogicalFile_congr (hfind : index.find path = index'.find path)
    (h : ∀ entry u i, index.find path = some entry →
      U.parseStr entry.fileId = some u →
      i < (chunkCount entry.size header.chunkSize).toNat →
        read (chunkPathOf U contentsDir u (UInt32.ofNat i)) =
          read' (chunkPathOf U contentsDir u (UInt32.ofNat i))) :
    readLogicalFile A contentsDir header contentKey read index path =
      readLogicalFile A contentsDir header contentKey read' index' path := by
  unfold readLogicalFile
  rw [← hfind]
  cases hentry : index.find path with
  | none => rfl
  | some entry =>
      have hchunks : ∀ chunkIndex ∈
          List.range (chunkCount entry.size header.chunkSize).toNat,
          readChunk A contentsDir header contentKey read entry
              (UInt32.ofNat chunkIndex) =
            readChunk A contentsDir header contentKey read' entry
              (UInt32.ofNat chunkIndex) :=
        fun chunkIndex hmem => readChunk_congr fun v hv =>
          h entry v chunkIndex hentry hv (List.mem_range.mp hmem)
      simp only [extendM_congr hchunks]

/-- A read whose chunks all come out as `g` returns their concatenation, if
its length is the recorded one. -/
theorem readLogicalFile_of_chunks {g : ℕ → Bytes} {out : Bytes}
    (entry : VaultIndexEntry) (hfind : index.find path = some entry)
    (hparse : U.parseStr entry.fileId = some u)
    (hchunks : ∀ k < (chunkCount entry.size header.chunkSize).toNat,
      readChunk A contentsDir header contentKey read entry (UInt32.ofNat k) =
        .ok (g k))
    (hout : (List.range (chunkCount entry.size header.chunkSize).toNat).flatMap g =
      out)
    (hsize : UInt64.ofNat out.length = entry.size) :
    readLogicalFile A contentsDir header contentKey read index path = .ok out := by
  unfold readLogicalFile
  simp only [hfind, hparse]
  rw [extendM_of_ok (g := g) fun k hk => hchunks k (List.mem_range.mp hk),
    List.nil_append, hout, except_ok_bind, if_neg (not_not.mpr hsize)]

/-- A read whose first chunk is gone fails. -/
theorem readLogicalFile_missing_first (entry : VaultIndexEntry)
    (hfind : index.find path = some entry)
    (hparse : U.parseStr entry.fileId = some u)
    (hcount : 0 < (chunkCount entry.size header.chunkSize).toNat)
    (hread : read (chunkPathOf U contentsDir u 0) = .error notFoundError) :
    readLogicalFile A contentsDir header contentKey read index path =
      .error (.vaultStoreInvalid (chunkPathOf U contentsDir u 0) "missing chunk") := by
  have hfirst : readChunk A contentsDir header contentKey read entry
      (UInt32.ofNat 0) = .error (.vaultStoreInvalid
        (chunkPathOf U contentsDir u 0) "missing chunk") := by
    unfold readChunk
    rw [chunkFilePath_of_parseStr hparse, except_ok_bind, readBlob]
    simp only [UInt32.reduceOfNat, hread]
    rfl
  obtain ⟨n, hn⟩ := Nat.exists_eq_add_one.mpr hcount
  unfold readLogicalFile
  simp only [hfind, hparse]
  rw [hn, List.range_succ_eq_map, extendM_cons, hfirst]
  rfl

theorem readLogicalFile_eq_ok {out : Bytes}
    (h : readLogicalFile A contentsDir header contentKey read index path =
      .ok out) :
    ∃ entry g, index.find path = some entry ∧
      (∀ k < (chunkCount entry.size header.chunkSize).toNat,
        readChunk A contentsDir header contentKey read entry (UInt32.ofNat k) =
          .ok (g k)) ∧
      out = (List.range (chunkCount entry.size header.chunkSize).toNat).flatMap g ∧
      UInt64.ofNat out.length = entry.size := by
  unfold readLogicalFile at h
  split at h
  · cases h
  rename_i entry hfind
  split at h
  · cases h
  obtain ⟨res, hloop, h⟩ := except_bind_eq_ok.mp h
  split at h
  · cases h
  rename_i hsize
  cases h
  obtain ⟨g, hchunks, hres⟩ := extendM_eq_ok hloop
  exact ⟨entry, g, hfind, fun k hk => hchunks k (List.mem_range.mpr hk),
    by simpa using hres, not_not.mp hsize⟩

theorem present_of_readChunk {plain : Bytes}
    (h : readChunk A contentsDir header contentKey read entry i = .ok plain)
    (hparse : U.parseStr entry.fileId = some u) :
    ∃ blob, read (chunkPathOf U contentsDir u i) = .ok blob := by
  unfold readChunk at h
  rw [chunkFilePath_of_parseStr hparse, except_ok_bind] at h
  obtain ⟨blob, hread, -⟩ := except_bind_eq_ok.mp h
  exact ⟨blob, readBlob_eq_ok.mp hread⟩

/-- A successful read needs no more than the chunk files it found. -/
theorem readLogicalFile_of_present {out : Bytes}
    (h : readLogicalFile A contentsDir header contentKey read index path = .ok out)
    (hkept : ∀ u i blob, read (chunkPathOf U contentsDir u i) = .ok blob →
      read' (chunkPathOf U contentsDir u i) = .ok blob) :
    readLogicalFile A contentsDir header contentKey read' index path = .ok out := by
  obtain ⟨entry, g, hfind, hchunks, -, -⟩ := readLogicalFile_eq_ok h
  refine Eq.trans (readLogicalFile_congr rfl ?_) h
  intro found u i hfound hparse hi
  obtain rfl := Option.some.inj (hfind.symm.trans hfound)
  obtain ⟨blob, hread⟩ := present_of_readChunk (hchunks i hi) hparse
  exact (hkept u _ blob hread).trans hread.symm

end Upriv.Contents
