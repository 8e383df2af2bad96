import Upriv.Contents.RoundTrip

/-!
# Chunk integrity

Against an ideal cipher the data directory can hold anything: whatever opens
there under the content key was sealed before, under the same authenticated
data.  Since that data names the file id, the chunk index, the file size and
the chunk length, a chunk that opens is the slice of the right write at the
right place.
-/

namespace Upriv.Contents

variable {U : UuidCrate} {A : XChaCha20Poly1305} {contentsDir : PathBuf}
  {header : VaultHeader U} {contentKey : ContentKey} {call : WriteCall U}
  {history : List (WriteCall U)} {index : VaultIndex}
  {read : PathBuf → Except IoError Bytes} {path : String}

/-- What the adversary can have under the content key: slices of the writes in
the history, each with the authenticated data of its write, and anything
sealed as a wrapped key or as an index.  A write that stopped early sealed
only some of its slices. -/
inductive Sealed (header : VaultHeader U) (history : List (WriteCall U)) :
    (aad plain : Bytes) → Prop where
  | chunk {call : WriteCall U} {k : ℕ} (hcall : call ∈ history)
      (hk : k < call.plaintext.length ⌈/⌉ header.chunkSize.toNat) :
      Sealed header history
        (sliceAad header call (slice header.chunkSize.toNat k call.plaintext) k)
        (slice header.chunkSize.toNat k call.plaintext)
  | wrap (header' : VaultHeader U) (plain : Bytes) :
      Sealed header history (wrapAadBytes header') plain
  | index (header' : VaultHeader U) (plain : Bytes) :
      Sealed header history (indexAad header') plain

/-- No blob of the directory opens under the content key unless its content
was sealed with the same authenticated data. -/
def NoForgery (A : XChaCha20Poly1305) (contentKey : ContentKey)
    (header : VaultHeader U) (history : List (WriteCall U))
    (read : PathBuf → Except IoError Bytes) : Prop :=
  ∀ filePath blob aad plain, read filePath = .ok blob →
    decryptXchacha A contentKey blob aad = .ok plain →
      Sealed header history aad plain

/-- No file of the entry opens as a chunk of it unless that was sealed. -/
def NoForgeryOf (A : XChaCha20Poly1305) (contentsDir : PathBuf) (contentKey : ContentKey)
    (header : VaultHeader U) (history : List (WriteCall U))
    (read : PathBuf → Except IoError Bytes) (entry : VaultIndexEntry) : Prop :=
  ∀ u i blob plain, U.parseStr entry.fileId = some u →
    read (chunkPathOf U contentsDir u i) = .ok blob →
    decryptXchacha A contentKey blob (expectedAad header entry i) = .ok plain →
      Sealed header history (expectedAad header entry i) plain

theorem NoForgery.of_entry (h : NoForgery A contentKey header history read)
    (entry : VaultIndexEntry) :
    NoForgeryOf A contentsDir contentKey header history read entry :=
  fun u i blob plain _ hread hdecrypt =>
    h (chunkPathOf U contentsDir u i) blob _ plain hread hdecrypt

/-- A chunk that the reader accepts is a slice of a write that drew the
entry's file id, at an index that agrees in 32 bits. -/
theorem sealed_expectedAad {plain : Bytes} {entry : VaultIndexEntry} {i : UInt32}
    (h : Sealed header history (expectedAad header entry i) plain) :
    ∃ call ∈ history, ∃ k < call.plaintext.length ⌈/⌉ header.chunkSize.toNat,
      call.fileId = entry.fileId ∧ UInt32.ofNat k = i ∧
        plain = slice header.chunkSize.toNat k call.plaintext := by
  generalize haad : expectedAad header entry i = aad at h
  cases h with
  | wrap header' => exact (chunkAad_ne_wrapAadBytes haad).elim
  | index header' => exact (chunkAad_ne_indexAad haad).elim
  | @chunk call k hcall hk =>
      obtain ⟨_, hposition, _⟩ := storeAadBytes_inj haad
      simp only [Option.some.injEq, ChunkPosition.mk.injEq] at hposition
      exact ⟨call, hcall, k, hk, hposition.1.symm, hposition.2.1.symm, rfl⟩

/-! ## A complete read has all chunks -/

/-- The first `n` expected lengths add up to the size or to `n` full chunks. -/
theorem length_flatMap_chunks {chunkSize size : ℕ} {g : ℕ → Bytes} (n : ℕ)
    (hlen : ∀ k < n, (g k).length = min chunkSize (size - k * chunkSize)) :
    ((List.range n).flatMap g).length = min size (n * chunkSize) := by
  induction n with
  | zero => simp
  | succ n ih =>
      rw [List.range_succ, List.flatMap_append, List.length_append,
        ih fun k hk => hlen k (by omega)]
      simp only [List.flatMap_cons, List.flatMap_nil, List.append_nil,
        hlen n (Nat.lt_succ_self n), Nat.succ_mul]
      omega

/-- With a full-size result the chunk count did not overflow. -/
theorem ceilDiv_lt_of_complete {chunkSize size count : ℕ} (hpos : 0 < chunkSize)
    (hcount : count = (size ⌈/⌉ chunkSize) % 2 ^ 32)
    (hcomplete : min size (count * chunkSize) = size) :
    size ⌈/⌉ chunkSize < 2 ^ 32 ∧ count = size ⌈/⌉ chunkSize := by
  have hle : size ⌈/⌉ chunkSize ≤ count := by
    rw [ceilDiv_le_iff_le_mul hpos, Nat.mul_comm]
    omega
  omega

/-! ## What a successful read returns -/

theorem eq_of_fileId_eq {call' : WriteCall U} (hids : (history.map (·.newV4)).Nodup)
    (hcall : call ∈ history) (hcall' : call' ∈ history)
    (h : call'.fileId = call.fileId) : call' = call :=
  List.inj_on_of_nodup_map hids hcall' hcall (UuidCrate.toString_injective h)

/-- Every chunk that the reader accepts is the slice at its own place. -/
theorem readChunk_eq_slice {plain : Bytes} {k : ℕ}
    (hids : (history.map (·.newV4)).Nodup)
    (hforge : NoForgeryOf A contentsDir contentKey header history read call.entry)
    (hcall : call ∈ history)
    (hfits : call.plaintext.length ⌈/⌉ header.chunkSize.toNat < 2 ^ 32)
    (hk : k < 2 ^ 32)
    (hok : readChunk A contentsDir header contentKey read call.entry
      (UInt32.ofNat k) = .ok plain) :
    plain = slice header.chunkSize.toNat k call.plaintext := by
  obtain ⟨⟨u, blob, hparse, hread, hdecrypt⟩, _⟩ := readChunk_eq_ok hok
  obtain ⟨call', hcall', j, hj, hid, hindex, hplain⟩ :=
    sealed_expectedAad (hforge u _ blob plain hparse hread hdecrypt)
  obtain rfl := eq_of_fileId_eq hids hcall hcall' hid
  have hjk : j = k := by
    have hnat := congrArg UInt32.toNat hindex
    rwa [UInt32.toNat_ofNat', UInt32.toNat_ofNat', Nat.mod_eq_of_lt (by omega),
      Nat.mod_eq_of_lt hk] at hnat
  rw [hplain, hjk]

/-- The length of a complete read, from the lengths of its chunks. -/
theorem length_complete {g : ℕ → Bytes}
    (hchunks : ∀ k < (chunkCount call.entry.size header.chunkSize).toNat,
      readChunk A contentsDir header contentKey read call.entry (UInt32.ofNat k) =
        .ok (g k)) :
    ((List.range (chunkCount call.entry.size header.chunkSize).toNat).flatMap
        g).length =
      min call.plaintext.length
        ((chunkCount call.entry.size header.chunkSize).toNat *
          header.chunkSize.toNat) := by
  have hcount := (chunkCount call.entry.size header.chunkSize).toNat_lt
  apply length_flatMap_chunks
  intro k hk
  rw [(readChunk_eq_ok (hchunks k hk)).2, chunkPlainLen_toNat, UInt32.toNat_ofNat',
    Nat.mod_eq_of_lt (by omega), entry_size_toNat]

theorem read_eq_written {out : Bytes}
    (hids : (history.map (·.newV4)).Nodup)
    (hforge : NoForgeryOf A contentsDir contentKey header history read call.entry)
    (hcall : call ∈ history) (hfind : index.find path = some call.entry)
    (hok : readLogicalFile A contentsDir header contentKey read index path =
      .ok out) : out = call.plaintext := by
  obtain ⟨entry, g, hentry, hchunks, rfl, hsize⟩ := readLogicalFile_eq_ok hok
  obtain rfl : entry = call.entry := Option.some.inj (hentry.symm.trans hfind)
  have hlength := length_complete hchunks
  have hlt := call.length_lt
  have hcomplete : min call.plaintext.length
      ((chunkCount call.entry.size header.chunkSize).toNat *
        header.chunkSize.toNat) = call.plaintext.length := by
    have hnat := congrArg UInt64.toNat hsize
    rw [entry_size_toNat, UInt64.toNat_ofNat', hlength,
      Nat.mod_eq_of_lt (by omega)] at hnat
    exact hnat
  by_cases hzero : header.chunkSize = 0
  · -- without a chunk size only the empty file reads back
    have hempty : call.plaintext.length = 0 := by
      rw [hzero, UInt32.toNat_zero, Nat.mul_zero, Nat.min_zero] at hcomplete
      exact hcomplete.symm
    rw [hcomplete, hempty, List.length_eq_zero_iff] at hlength
    rw [hlength, List.length_eq_zero_iff.mp hempty]
  · have hpos : 0 < header.chunkSize.toNat := by
      rw [Nat.pos_iff_ne_zero]
      exact fun h => hzero (UInt32.toNat_inj.mp h)
    have hcount := chunkCount_toNat call.entry.size hzero
    rw [entry_size_toNat] at hcount
    obtain ⟨hfits, hcount⟩ := ceilDiv_lt_of_complete hpos hcount hcomplete
    rw [hcount] at hchunks ⊢
    have hslices : ∀ k ∈ List.range (call.plaintext.length ⌈/⌉ header.chunkSize.toNat),
        g k = slice header.chunkSize.toNat k call.plaintext := fun k hk =>
      have hk := List.mem_range.mp hk
      readChunk_eq_slice hids hforge hcall hfits (by omega) (hchunks k hk)
    rw [List.flatMap_congr hslices]
    exact flatMap_slice hpos call.plaintext

/-- Whatever the data directory holds, a read through an index of the history
fails or returns the plaintext that was written for the entry's file id. -/
theorem readLogicalFile_integrity (A : XChaCha20Poly1305)
    (contentsDir : PathBuf) (header : VaultHeader U) (contentKey : ContentKey)
    (files : PathBuf → Option Bytes) (earlier later : List (WriteCall U))
    (hids : ((earlier ++ later).map (·.newV4)).Nodup)
    (read : PathBuf → Except IoError Bytes)
    (hforge : NoForgery A contentKey header (earlier ++ later) read)
    (path : String) :
    let index := (runWrites A contentsDir header contentKey earlier
      ⟨.empty, files⟩).index
    (∃ e, readLogicalFile A contentsDir header contentKey read index path =
      .error e) ∨
    ∃ call ∈ earlier, index.find path = some call.entry ∧
      readLogicalFile A contentsDir header contentKey read index path =
        .ok call.plaintext := by
  intro index
  cases hread : readLogicalFile A contentsDir header contentKey read index path with
  | error e => exact .inl ⟨e, rfl⟩
  | ok out =>
      right
      obtain ⟨entry, _, hfind, _⟩ := readLogicalFile_eq_ok hread
      rcases mem_entries_runWrites (mem_of_find hfind) with h | ⟨call, hcall, rfl⟩
      · simp [VaultIndex.empty] at h
      · refine ⟨call, hcall, hfind, ?_⟩
        rw [read_eq_written hids (hforge.of_entry call.entry)
          (List.mem_append_left later hcall) hfind hread]

/-! ## A sample directory: two chunks swapped -/

theorem decryptXchacha_transparent {nonce : XNonce} {key : ContentKey}
    {plain aad blob plain' aad' : Bytes}
    (henc : encryptXchacha sampleCipher nonce key plain aad = .ok blob)
    (hdec : decryptXchacha sampleCipher key blob aad' = .ok plain') :
    aad' = aad ∧ plain' = plain := by
  unfold encryptXchacha at henc
  split at henc
  · cases henc
  split at henc
  · cases henc
  rename_i ciphertext hciphertext
  cases henc
  have hnonce : nonce.toList.length = XCHACHA_NONCE_LEN := by simp
  unfold decryptXchacha at hdec
  split at hdec
  · cases hdec
  rw [List.splitAt_eq, List.take_left' hnonce, List.drop_left' hnonce] at hdec
  dsimp only at hdec
  split at hdec
  · cases hdec
  rename_i opened hopened
  cases hdec
  exact AeadCrate.transparent_decrypt_encrypt hciphertext hopened

/-- The blob of one slice of `write123`. -/
def blob123 (k : ℕ) : Except IoError Bytes :=
  match encryptXchacha sampleCipher (write123.nonce k) sampleKey
      (slice 2 k write123.plaintext)
      (sliceAad sampleHeader write123 (slice 2 k write123.plaintext) k) with
  | .ok blob => .ok blob
  | .error _ => .error notFoundError

def swappedDirectory (filePath : PathBuf) : Except IoError Bytes :=
  if filePath = chunkPathOf UuidCrate.hyphenated "contents" uuidA 0 then blob123 1
  else if filePath = chunkPathOf UuidCrate.hyphenated "contents" uuidA 1 then
    blob123 0
  else .error notFoundError

theorem noForgery_swappedDirectory :
    NoForgery sampleCipher sampleKey sampleHeader [write123, write4]
      swappedDirectory := by
  intro filePath blob aad plain hread hdecrypt
  obtain ⟨k, hk, hblob⟩ : ∃ k < 2, blob123 k = .ok blob := by
    unfold swappedDirectory at hread
    split at hread
    · exact ⟨1, by omega, hread⟩
    · split at hread
      · exact ⟨0, by omega, hread⟩
      · cases hread
  unfold blob123 at hblob
  split at hblob
  · rename_i sealedBlob hsealed
    cases hblob
    obtain ⟨rfl, rfl⟩ := decryptXchacha_transparent hsealed hdecrypt
    exact .chunk List.mem_cons_self hk
  · cases hblob

theorem readLogicalFile_integrity_sample :
    let index := (runWrites sampleCipher "contents" sampleHeader sampleKey
      [write123] ⟨.empty, fun _ => none⟩).index
    (∃ e, readLogicalFile sampleCipher "contents" sampleHeader sampleKey
      swappedDirectory index "a" = .error e) ∨
    ∃ call ∈ [write123], index.find "a" = some call.entry ∧
      readLogicalFile sampleCipher "contents" sampleHeader sampleKey
        swappedDirectory index "a" = .ok call.plaintext :=
  readLogicalFile_integrity sampleCipher "contents" sampleHeader sampleKey
    (fun _ => none) [write123] [write4] (by decide) swappedDirectory
    noForgery_swappedDirectory "a"

end Upriv.Contents
