import Upriv.Contents.ChunkSize

/-!
# What one write does to a store

Three facts about `write_logical_file`: which files it can touch, which
entries the index can hold afterwards, and what a successful write has left
in place.  Later modules use nothing else about its body.
-/

namespace Upriv.Contents

open FallibleM

variable {U : UuidCrate} {A : XChaCha20Poly1305} {contentsDir : PathBuf}
  {header : VaultHeader U} {contentKey : ContentKey} {call : WriteCall U}
  {s s' : ContentsStore} {P : Set PathBuf}

/-! ## Which files a write touches -/

theorem sameFilesExcept_removeFileChunks (faults : Faults) {fileId : String}
    {fileSize : UInt64} {chunkSize : UInt32}
    (hP : ∀ u i, U.parseStr fileId = some u → chunkPathOf U contentsDir u i ∈ P) :
    SameFilesExcept P s
      (exec (removeFileChunks U contentsDir faults fileId fileSize chunkSize) s).2 := by
  refine forM_invariant (SameFilesExcept P s) ?_ (fun _ _ => rfl)
  intro index _ t ht
  rw [exec_ofExcept_bind]
  cases hpath : chunkFilePath U contentsDir fileId (UInt32.ofNat index) with
  | error e => exact ht
  | ok path =>
      obtain ⟨u, hparse, rfl⟩ := chunkFilePath_ok hpath
      exact sameFilesExcept_removeFile faults ht (hP u _ hparse)

theorem sameFilesExcept_removeExisting
    (hP : ∀ e u i, s.index.find call.logicalPath = some e →
      U.parseStr e.fileId = some u → chunkPathOf U contentsDir u i ∈ P) :
    SameFilesExcept P s (exec (removeExisting contentsDir header call) s).2 := by
  unfold removeExisting
  rw [exec_bind, exec_get]
  dsimp only
  cases hfind : s.index.find call.logicalPath with
  | none => exact fun _ _ => rfl
  | some existing =>
      refine exec_bind_invariant _ (sameFilesExcept_removeFileChunks call.faults
        fun u i => hP existing u i hfind) ?_
      exact fun _ t ht => ht

theorem sameFilesExcept_writeChunk (chunk : Bytes × ℕ)
    (h : SameFilesExcept P s s')
    (hP : chunkPathOf U contentsDir call.newV4 (UInt32.ofNat chunk.2) ∈ P) :
    SameFilesExcept P s
      (exec (writeChunk A contentsDir header contentKey call chunk) s').2 := by
  unfold writeChunk
  rw [exec_ofExcept_bind]
  cases encryptXchacha A (call.nonce chunk.2) contentKey chunk.1
      (sliceAad header call chunk.1 chunk.2) with
  | error e => exact h
  | ok blob =>
      dsimp only
      rw [chunkFilePath_fileId, exec_ofExcept_bind]
      exact sameFilesExcept_writeBytesAtomic call.faults blob h hP

/-- Whatever the outcome, only the chunk files of the overwritten entry and
of the new UUID can differ. -/
theorem sameFilesExcept_writeLogicalFile
    (hold : ∀ e u i, s.index.find call.logicalPath = some e →
      U.parseStr e.fileId = some u → chunkPathOf U contentsDir u i ∈ P)
    (hnew : ∀ i, chunkPathOf U contentsDir call.newV4 i ∈ P) :
    SameFilesExcept P s
      (exec (writeLogicalFile A contentsDir header contentKey call) s).2 := by
  unfold writeLogicalFile
  rw [exec_ofExcept_bind]
  cases validateLogicalPath call.logicalPath with
  | error e => exact fun _ _ => rfl
  | ok _ =>
      dsimp only
      split
      · exact fun _ _ => rfl
      · refine exec_bind_invariant _ (sameFilesExcept_removeExisting hold) ?_
        intro _ t ht
        refine exec_bind_invariant _ (sameFilesExcept_createDirAll call.faults _ ht) ?_
        intro _ t ht
        refine exec_bind_invariant (SameFilesExcept P s)
          (forM_invariant _ ?_ ht) (fun _ t ht => ht)
        exact fun chunk _ t ht => sameFilesExcept_writeChunk chunk ht (hnew _)

/-! ## Which entries a write leaves -/

theorem index_removeFileChunks (U : UuidCrate) (contentsDir : PathBuf)
    (faults : Faults) (fileId : String) (fileSize : UInt64) (chunkSize : UInt32)
    (s : ContentsStore) :
    (exec (removeFileChunks U contentsDir faults fileId fileSize chunkSize) s).2.index =
      s.index := by
  refine forM_invariant (fun t : ContentsStore => t.index = s.index) ?_ rfl
  intro index _ t ht
  rw [exec_ofExcept_bind]
  cases chunkFilePath U contentsDir fileId (UInt32.ofNat index) with
  | error e => exact ht
  | ok path => exact (index_removeFile faults path).trans ht

theorem index_writeChunk (chunk : Bytes × ℕ) :
    (exec (writeChunk A contentsDir header contentKey call chunk) s).2.index =
      s.index := by
  unfold writeChunk
  rw [exec_ofExcept_bind]
  cases encryptXchacha A (call.nonce chunk.2) contentKey chunk.1
      (sliceAad header call chunk.1 chunk.2) with
  | error e => rfl
  | ok blob =>
      dsimp only
      rw [chunkFilePath_fileId, exec_ofExcept_bind]
      exact index_writeBytesAtomic call.faults _ blob

theorem index_writeChunks (A : XChaCha20Poly1305) (contentsDir : PathBuf)
    (header : VaultHeader U) (contentKey : ContentKey) (call : WriteCall U)
    (chunkList : List (Bytes × ℕ)) (s : ContentsStore) :
    (exec (forM chunkList (writeChunk A contentsDir header contentKey call)) s).2.index =
      s.index :=
  forM_invariant (fun t : ContentsStore => t.index = s.index)
    (fun chunk _ _ ht => (index_writeChunk chunk).trans ht) rfl

/-- Whatever the outcome, every entry was there before or is the new one. -/
theorem mem_entries_writeLogicalFile {e : VaultIndexEntry}
    (he : e ∈ (exec (writeLogicalFile A contentsDir header contentKey call)
      s).2.index.entries) :
    e ∈ s.index.entries ∨ e = call.entry := by
  revert e
  let Inv : ContentsStore → Prop := fun t =>
    ∀ e ∈ t.index.entries, e ∈ s.index.entries ∨ e = call.entry
  have hsame : ∀ {t t' : ContentsStore}, t'.index = t.index → Inv t → Inv t' :=
    fun hindex ht e he => ht e (hindex ▸ he)
  have hstart : Inv s := fun e he => .inl he
  change Inv _
  unfold writeLogicalFile
  rw [exec_ofExcept_bind]
  cases validateLogicalPath call.logicalPath with
  | error e => exact hstart
  | ok _ =>
      dsimp only
      split
      · exact hstart
      · refine exec_bind_invariant Inv ?_ fun _ t ht => ?_
        · unfold removeExisting
          rw [exec_bind, exec_get]
          dsimp only
          cases s.index.find call.logicalPath with
          | none => exact hstart
          | some existing =>
              refine exec_bind_invariant Inv
                (hsame (index_removeFileChunks U contentsDir call.faults _ _ _ s) hstart) ?_
              exact fun _ t ht e he => ht e (List.mem_of_mem_filter he)
        · refine exec_bind_invariant Inv
            (hsame (index_createDirAll call.faults _) ht) fun _ t ht => ?_
          refine exec_bind_invariant Inv
            (hsame (index_writeChunks A contentsDir header contentKey call _ t) ht)
            fun _ t ht => ?_
          intro e he
          rcases List.mem_append.mp he with he | he
          · exact ht e he
          · exact .inr (List.mem_singleton.mp he)

/-! ## What a successful write leaves -/

theorem removeExisting_ok
    (h : exec (removeExisting contentsDir header call) s = (.ok ⟨⟩, s')) :
    s'.index = s.index.retain call.logicalPath := by
  unfold removeExisting at h
  rw [exec_bind, exec_get] at h
  dsimp only at h
  cases hfind : s.index.find call.logicalPath with
  | none =>
      rw [hfind] at h
      cases h
      exact (retain_eq_self hfind).symm
  | some existing =>
      rw [hfind] at h
      dsimp only at h
      rw [exec_bind_eq_ok_iff] at h
      obtain ⟨_, t, hremove, h⟩ := h
      have hindex := index_removeFileChunks U contentsDir call.faults
        existing.fileId existing.size header.chunkSize s
      rw [hremove] at hindex
      cases h
      exact congrArg (·.retain call.logicalPath) hindex

theorem writeChunk_ok {chunk : Bytes × ℕ}
    (h : exec (writeChunk A contentsDir header contentKey call chunk) s =
      (.ok ⟨⟩, s')) :
    ∃ blob, encryptXchacha A (call.nonce chunk.2) contentKey chunk.1
        (sliceAad header call chunk.1 chunk.2) = .ok blob ∧
      s'.files (chunkPathOf U contentsDir call.newV4 (UInt32.ofNat chunk.2)) =
        some blob := by
  unfold writeChunk at h
  rw [exec_ofExcept_bind_eq_ok_iff] at h
  obtain ⟨blob, hblob, h⟩ := h
  rw [chunkFilePath_fileId, exec_ofExcept_bind] at h
  exact ⟨blob, hblob, writeBytesAtomic_ok h⟩

/-- The blob of a slice is in place under its own name. -/
def SliceStored (A : XChaCha20Poly1305) (contentsDir : PathBuf)
    (header : VaultHeader U) (contentKey : ContentKey) (call : WriteCall U)
    (s : ContentsStore) (i : ℕ) : Prop :=
  ∃ blob, encryptXchacha A (call.nonce i) contentKey
      (slice header.chunkSize.toNat i call.plaintext)
      (sliceAad header call (slice header.chunkSize.toNat i call.plaintext) i) =
        .ok blob ∧
    s.files (chunkPathOf U contentsDir call.newV4 (UInt32.ofNat i)) = some blob

theorem getElem?_slices {chunkSize : UInt32} {i : ℕ} {chunk : Bytes × ℕ}
    (h : (call.slices chunkSize)[i]? = some chunk) :
    i < call.plaintext.length ⌈/⌉ chunkSize.toNat ∧
      chunk = (slice chunkSize.toNat i call.plaintext, i) := by
  simp only [WriteCall.slices, List.getElem?_zipIdx, Option.map_eq_some_iff] at h
  obtain ⟨c, hc, rfl⟩ := h
  obtain ⟨hi, rfl⟩ := getElem?_chunks hc
  exact ⟨hi, by simp⟩

theorem ofNat_ne_of_lt {i j n : ℕ} (hn : n ≤ 2 ^ 32) (hi : i < j) (hj : j < n) :
    UInt32.ofNat i ≠ UInt32.ofNat j := by
  intro h
  have hnat := congrArg UInt32.toNat h
  rw [UInt32.toNat_ofNat', UInt32.toNat_ofNat', Nat.mod_eq_of_lt (by omega),
    Nat.mod_eq_of_lt (by omega)] at hnat
  omega

/-- One round stores its own slice and, as long as the indices stay apart in
32 bits, leaves the earlier slices alone. -/
theorem sliceStored_step {k n : ℕ} (hn : n ≤ 2 ^ 32) (hk : k < n)
    (hstored : ∀ j < k, SliceStored A contentsDir header contentKey call s j)
    (hrun : exec (writeChunk A contentsDir header contentKey call
      (slice header.chunkSize.toNat k call.plaintext, k)) s = (.ok ⟨⟩, s')) :
    ∀ j < k + 1, SliceStored A contentsDir header contentKey call s' j := by
  intro j hj
  rcases Nat.lt_succ_iff_lt_or_eq.mp hj with hlt | heq
  · obtain ⟨blob, hblob, hfile⟩ := hstored j hlt
    have hframe : SameFilesExcept
        {chunkPathOf U contentsDir call.newV4 (UInt32.ofNat k)} s
        (exec (writeChunk A contentsDir header contentKey call
          (slice header.chunkSize.toNat k call.plaintext, k)) s).2 :=
      sameFilesExcept_writeChunk _ (fun _ _ => rfl) rfl
    rw [hrun] at hframe
    refine ⟨blob, hblob, ?_⟩
    rw [hframe _ fun heq => ofNat_ne_of_lt hn hlt hk (chunkPathOf_inj heq).2, hfile]
  · rw [heq]
    have hthis := writeChunk_ok hrun
    exact hthis

/-- With at most `2 ^ 32` chunks no chunk file is written twice, so after the
loop all of them are in place. -/
theorem writeChunks_ok
    (hfits : call.plaintext.length ⌈/⌉ header.chunkSize.toNat ≤ 2 ^ 32)
    (h : exec (forM (call.slices header.chunkSize)
      (writeChunk A contentsDir header contentKey call)) s = (.ok ⟨⟩, s')) :
    ∀ i < call.plaintext.length ⌈/⌉ header.chunkSize.toNat,
      SliceStored A contentsDir header contentKey call s' i := by
  have hlength : (call.slices header.chunkSize).length =
      call.plaintext.length ⌈/⌉ header.chunkSize.toNat := by
    simp [WriteCall.slices, length_chunks]
  rw [← hlength]
  refine forM_ok_induction (fun k t =>
    ∀ j < k, SliceStored A contentsDir header contentKey call t j) ?_ (by simp) h
  intro k chunk t t' hchunk hstored hrun
  obtain ⟨hk, rfl⟩ := getElem?_slices hchunk
  exact sliceStored_step hfits hk hstored hrun

theorem createDirAll_ok {faults : Faults} {path : PathBuf}
    (h : exec (createDirAll faults path) s = (.ok ⟨⟩, s')) : s' = s := by
  simp only [createDirAll, exec_op] at h
  split at h
  · simp at h
  · cases h
    rfl

/-- The parts of a successful write. -/
theorem writeLogicalFile_parts
    (h : exec (writeLogicalFile A contentsDir header contentKey call) s =
      (.ok ⟨⟩, s')) :
    validateLogicalPath call.logicalPath = .ok ⟨⟩ ∧ header.chunkSize ≠ 0 ∧
    ∃ s₁ s₂, exec (removeExisting contentsDir header call) s = (.ok ⟨⟩, s₁) ∧
      exec (forM (call.slices header.chunkSize)
        (writeChunk A contentsDir header contentKey call)) s₁ = (.ok ⟨⟩, s₂) ∧
      s' = { s₂ with index := s₂.index.push call.entry } := by
  unfold writeLogicalFile at h
  obtain ⟨_, hpath, h⟩ := exec_ofExcept_bind_eq_ok_iff.mp h
  split at h
  · cases h
  · rename_i hchunk
    obtain ⟨_, s₁, hremove, h⟩ := exec_bind_eq_ok_iff.mp h
    obtain ⟨_, t, hcreate, h⟩ := exec_bind_eq_ok_iff.mp h
    obtain ⟨_, s₂, hwrite, h⟩ := exec_bind_eq_ok_iff.mp h
    cases h
    rw [createDirAll_ok hcreate] at hwrite
    exact ⟨hpath, hchunk, s₁, s₂, hremove, hwrite, rfl⟩

/-- The new entry replaces every entry of its path, and all slices are
stored. -/
theorem writeLogicalFile_ok
    (h : exec (writeLogicalFile A contentsDir header contentKey call) s =
      (.ok ⟨⟩, s')) :
    header.chunkSize ≠ 0 ∧
    s'.index = (s.index.retain call.logicalPath).push call.entry ∧
    (call.plaintext.length ⌈/⌉ header.chunkSize.toNat ≤ 2 ^ 32 →
      ∀ i < call.plaintext.length ⌈/⌉ header.chunkSize.toNat,
        SliceStored A contentsDir header contentKey call s' i) := by
  obtain ⟨_, hchunk, s₁, s₂, hremove, hwrite, rfl⟩ := writeLogicalFile_parts h
  have hindex : s₂.index = s₁.index := by
    have h := index_writeChunks A contentsDir header contentKey call
      (call.slices header.chunkSize) s₁
    rwa [hwrite] at h
  have hstored := fun hfits => writeChunks_ok hfits hwrite
  refine ⟨hchunk, ?_, hstored⟩
  dsimp only
  rw [hindex, removeExisting_ok hremove]

/-! ## Overwriting removes the old chunks -/

/-- `NotFound` is the answer for a file that is missing, and only for that. -/
def HonestRemovals (faults : Faults) : Prop :=
  ∀ path error, faults (.removeFile path) = some error → error.kind ≠ .notFound

/-- `s'` is `s` without the first `k` chunk files of a UUID. -/
structure Removed (contentsDir : PathBuf) (u : U.Uuid) (k : ℕ) (s s' : ContentsStore) :
    Prop where
  index : s'.index = s.index
  gone : ∀ i < k, s'.files (chunkPathOf U contentsDir u (UInt32.ofNat i)) = none
  kept : ∀ path, (∀ i < k, path ≠ chunkPathOf U contentsDir u (UInt32.ofNat i)) →
    s'.files path = s.files path

theorem removed_zero (contentsDir : PathBuf) (u : U.Uuid) (s : ContentsStore) :
    Removed contentsDir u 0 s s :=
  ⟨rfl, fun _ hi => absurd hi (Nat.not_lt_zero _), fun _ _ => rfl⟩

theorem Removed.step {faults : Faults} {u : U.Uuid} {k : ℕ} {t t' : ContentsStore}
    (hhonest : HonestRemovals faults) (h : Removed contentsDir u k s t)
    (hrun : exec (removeFile faults (chunkPathOf U contentsDir u (UInt32.ofNat k))) t =
      (.ok ⟨⟩, t')) : Removed contentsDir u (k + 1) s t' := by
  simp only [removeFile, exec_op] at hrun
  cases hfault : faults (.removeFile (chunkPathOf U contentsDir u (UInt32.ofNat k))) with
  | some error =>
      rw [hfault] at hrun
      dsimp only at hrun
      rw [if_neg (hhonest _ error hfault)] at hrun
      cases hrun
  | none =>
      rw [hfault] at hrun
      cases hrun
      refine ⟨h.index, fun i hi => ?_, fun path hpath => ?_⟩
      · by_cases heq : chunkPathOf U contentsDir u (UInt32.ofNat i) =
            chunkPathOf U contentsDir u (UInt32.ofNat k)
        · rw [heq]
          exact Function.update_self _ _ _
        · have hik : i < k := by
            rcases Nat.lt_succ_iff_lt_or_eq.mp hi with hlt | rfl
            · exact hlt
            · exact absurd rfl heq
          exact (Function.update_of_ne heq _ _).trans (h.gone i hik)
      · exact (Function.update_of_ne (hpath k (Nat.lt_succ_self k)) _ _).trans
          (h.kept path fun i hi => hpath i (Nat.lt_succ_of_lt hi))

/-- One round of the removal loop. -/
theorem Removed.round {faults : Faults} {fileId : String} {u : U.Uuid} {n : ℕ}
    (hhonest : HonestRemovals faults) (hparse : U.parseStr fileId = some u)
    (k index : ℕ) (t t' : ContentsStore) (hindex : (List.range n)[k]? = some index)
    (h : Removed contentsDir u k s t)
    (hrun : exec (do
      let path ← FallibleM.ofExcept
        (chunkFilePath U contentsDir fileId (UInt32.ofNat index))
      removeFile faults path) t = (.ok ⟨⟩, t')) : Removed contentsDir u (k + 1) s t' := by
  obtain rfl : k = index := by
    rw [List.getElem?_eq_some_iff] at hindex
    obtain ⟨_, rfl⟩ := hindex
    rw [List.getElem_range]
  rw [chunkFilePath_of_parseStr hparse, exec_ofExcept_bind] at hrun
  exact h.step hhonest hrun

theorem removeFileChunks_ok {faults : Faults} {fileId : String}
    {fileSize : UInt64} {chunkSize : UInt32} {u : U.Uuid}
    (hhonest : HonestRemovals faults) (hparse : U.parseStr fileId = some u)
    (h : exec (removeFileChunks U contentsDir faults fileId fileSize chunkSize) s =
      (.ok ⟨⟩, s')) :
    Removed contentsDir u (chunkCount fileSize chunkSize).toNat s s' := by
  have hall := forM_ok_induction (fun k t => Removed contentsDir u k s t)
    (Removed.round hhonest hparse) (removed_zero contentsDir u s) h
  rwa [List.length_range] at hall

/-- What `removeExisting` takes out when it succeeds. -/
theorem removeExisting_removed {entry : VaultIndexEntry} {u : U.Uuid}
    (hhonest : HonestRemovals call.faults)
    (hfind : s.index.find call.logicalPath = some entry)
    (hparse : U.parseStr entry.fileId = some u)
    (h : exec (removeExisting contentsDir header call) s = (.ok ⟨⟩, s')) :
    ∃ t, Removed contentsDir u (chunkCount entry.size header.chunkSize).toNat s t ∧
      s' = { t with index := t.index.retain call.logicalPath } := by
  unfold removeExisting at h
  rw [exec_bind, exec_get] at h
  simp only [hfind] at h
  obtain ⟨_, t, hloop, h⟩ := exec_bind_eq_ok_iff.mp h
  cases h
  exact ⟨t, removeFileChunks_ok hhonest hparse hloop, rfl⟩

theorem sameFilesExcept_writeChunks (A : XChaCha20Poly1305) (contentsDir : PathBuf)
    (header : VaultHeader U) (contentKey : ContentKey) (call : WriteCall U)
    (chunkList : List (Bytes × ℕ)) (s : ContentsStore) :
    SameFilesExcept (chunkPathsOf U contentsDir call.newV4) s
      (exec (forM chunkList (writeChunk A contentsDir header contentKey call)) s).2 :=
  forM_invariant _
    (fun chunk _ _ ht => sameFilesExcept_writeChunk chunk ht (chunkPathOf_mem call.newV4 _))
    fun _ _ => rfl

/-- The chunks of the overwritten entry are gone after a success. -/
theorem writeLogicalFile_removes {entry : VaultIndexEntry} {u : U.Uuid}
    (hhonest : HonestRemovals call.faults)
    (hfind : s.index.find call.logicalPath = some entry)
    (hparse : U.parseStr entry.fileId = some u) (hne : u ≠ call.newV4)
    (h : exec (writeLogicalFile A contentsDir header contentKey call) s =
      (.ok ⟨⟩, s')) :
    ∀ i < (chunkCount entry.size header.chunkSize).toNat,
      s'.files (chunkPathOf U contentsDir u (UInt32.ofNat i)) = none := by
  intro i hi
  obtain ⟨_, _, s₁, s₂, hremove, hwrite, rfl⟩ := writeLogicalFile_parts h
  obtain ⟨t, hremoved, rfl⟩ := removeExisting_removed hhonest hfind hparse hremove
  have hframe := sameFilesExcept_writeChunks A contentsDir header contentKey call
    (call.slices header.chunkSize) { t with index := t.index.retain call.logicalPath }
  rw [hwrite] at hframe
  exact (hframe _ (chunkPathOf_not_mem hne _)).trans (hremoved.gone i hi)

/-! ## A write that nothing stands in the way of -/

theorem encryptXchacha_succeeds (A : XChaCha20Poly1305) (nonce : XNonce)
    (contentKey : ContentKey) (plaintext : Bytes) {aad : Bytes} (haad : aad ≠ [])
    (hencrypt : (A.encrypt contentKey nonce.toList plaintext aad).isSome) :
    ∃ blob, encryptXchacha A nonce contentKey plaintext aad = .ok blob := by
  obtain ⟨ciphertext, hciphertext⟩ := Option.isSome_iff_exists.mp hencrypt
  refine ⟨nonce.toList ++ ciphertext, ?_⟩
  rw [encryptXchacha, if_neg (by simpa using haad), hciphertext]

theorem writeChunk_succeeds (hfaults : ∀ fsCall, call.faults fsCall = none)
    {chunk : Bytes × ℕ} (hencrypt : ∀ (nonce : XNonce) aad,
      (A.encrypt contentKey nonce.toList chunk.1 aad).isSome) (s : ContentsStore) :
    (exec (writeChunk A contentsDir header contentKey call chunk) s).1 =
      .ok ⟨⟩ := by
  have haad : sliceAad header call chunk.1 chunk.2 ≠ [] :=
    storeAadBytes_ne_nil header "chunk" _
  obtain ⟨blob, hblob⟩ := encryptXchacha_succeeds A (call.nonce chunk.2) contentKey
    chunk.1 haad (hencrypt _ _)
  rw [writeChunk, hblob, exec_ofExcept_bind, chunkFilePath_fileId]
  simp [exec_ofExcept_bind, writeBytesAtomic, hfaults]

theorem removeFileChunks_succeeds {faults : Faults} {fileId : String}
    {fileSize : UInt64} {chunkSize : UInt32} {u : U.Uuid}
    (hfaults : ∀ fsCall, faults fsCall = none)
    (hparse : U.parseStr fileId = some u) (s : ContentsStore) :
    (exec (removeFileChunks U contentsDir faults fileId fileSize chunkSize) s).1 =
      .ok ⟨⟩ := by
  refine forM_succeeds ?_ s
  intro index _ t
  rw [chunkFilePath_of_parseStr hparse, exec_ofExcept_bind]
  simp [removeFile, hfaults]

/-- With a valid path, a chunk size, no refused file-system call, a cipher
that accepts the slices and an old entry (if any) whose file id is a UUID, the
write succeeds. -/
theorem writeLogicalFile_succeeds
    (hpath : logicalPathInvalid call.logicalPath = false)
    (hchunk : header.chunkSize ≠ 0)
    (hfaults : ∀ fsCall, call.faults fsCall = none)
    (hencrypt : ∀ (nonce : XNonce) msg aad, msg.length ≤ header.chunkSize.toNat →
      (A.encrypt contentKey nonce.toList msg aad).isSome)
    (hold : ∀ e, s.index.find call.logicalPath = some e →
      ∃ u, U.parseStr e.fileId = some u) :
    (exec (writeLogicalFile A contentsDir header contentKey call) s).1 = .ok ⟨⟩ := by
  unfold writeLogicalFile
  rw [exec_ofExcept_bind, validateLogicalPath, hpath]
  simp only [Bool.false_eq_true, ↓reduceIte, hchunk]
  refine exec_bind_succeeds (a := ⟨⟩) ?_ fun t₁ => ?_
  · unfold removeExisting
    rw [exec_bind, exec_get]
    dsimp only
    cases hfind : s.index.find call.logicalPath with
    | none => rfl
    | some existing =>
        obtain ⟨u, hparse⟩ := hold existing hfind
        exact exec_bind_succeeds (removeFileChunks_succeeds hfaults hparse s)
          fun _ => rfl
  refine exec_bind_succeeds (a := ⟨⟩) (by simp [createDirAll, hfaults]) fun t₂ => ?_
  refine exec_bind_succeeds (a := ⟨⟩) ?_ fun _ => rfl
  refine forM_succeeds (fun chunk hmem => ?_) t₂
  have hslice : chunk.1 ∈ chunks header.chunkSize.toNat call.plaintext :=
    List.fst_mem_of_mem_zipIdx hmem
  exact writeChunk_succeeds hfaults fun nonce aad =>
    hencrypt nonce chunk.1 aad (length_le_of_mem_chunks hslice)

end Upriv.Contents
