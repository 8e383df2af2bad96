import Upriv.Contents.RoundTrip
import Upriv.Support.Runs

/-!
# The representation invariant of a store

The index and the files in `data/` describe each other: the chunk files are
those of the index entries, no more and no less.  Successful writes preserve
this as long as no file has `2 ^ 32` chunks; from there on the chunk count is
cut off to 32 bits.
-/

namespace Upriv.Contents

open FallibleM

section
variable {U : UuidCrate} {A : XChaCha20Poly1305} {contentsDir : PathBuf}
  {header : VaultHeader U} {contentKey : ContentKey} {call : WriteCall U}
  {s s' : ContentsStore}

/-- A file in `data/`. -/
def dataFile (contentsDir : PathBuf) (name : String) : PathBuf :=
  joinPath (joinPath contentsDir DATA_DIR_NAME) name

theorem dataFile_injective : Function.Injective (dataFile contentsDir) :=
  joinPath_injective _

/-- `<file_id>.<i>.chunk.enc`. -/
def VaultIndexEntry.chunkName (e : VaultIndexEntry) (i : UInt32) : String :=
  e.fileId ++ "." ++ Nat.repr i.toNat ++ CHUNK_FILE_SUFFIX

/-- `name` is a chunk file of `e`. -/
def VaultIndexEntry.HasChunk (e : VaultIndexEntry) (chunkSize : UInt32) (name : String) :
    Prop :=
  ∃ i < chunkCount e.size chunkSize, name = e.chunkName i

structure Represents (U : UuidCrate) (contentsDir : PathBuf) (chunkSize : UInt32)
    (s : ContentsStore) : Prop where
  paths_nodup : (s.index.entries.map (·.path)).Nodup
  fileIds_nodup : (s.index.entries.map (·.fileId)).Nodup
  path_valid : ∀ e ∈ s.index.entries, validateLogicalPath e.path = .ok ⟨⟩
  /-- File ids are printed UUIDs. -/
  fileId_uuid : ∀ e ∈ s.index.entries, ∃ u : U.Uuid, e.fileId = U.toString u
  chunkFiles : ∀ name, (s.files (dataFile contentsDir name)).isSome ↔
    ∃ e ∈ s.index.entries, e.HasChunk chunkSize name

/-- No entry and nothing in `data/`. -/
structure IsEmptyStore (contentsDir : PathBuf) (s : ContentsStore) : Prop where
  entries : s.index.entries = []
  files : ∀ name, s.files (dataFile contentsDir name) = none

theorem represents_of_isEmptyStore {chunkSize : UInt32} (h : IsEmptyStore contentsDir s) :
    Represents U contentsDir chunkSize s := by
  constructor <;> simp [h.entries, h.files]

/-! ## The chunk files of the new entry -/

/-- `s'` is `s` with the first `k` chunk files of a UUID. -/
structure Written (contentsDir : PathBuf) (u : U.Uuid) (k : ℕ) (s s' : ContentsStore) :
    Prop where
  index : s'.index = s.index
  files : ∀ path, (s'.files path).isSome ↔
    (∃ i < k, path = chunkPathOf U contentsDir u (UInt32.ofNat i)) ∨ (s.files path).isSome

theorem Written.step {chunk : Bytes × ℕ} {t t' : ContentsStore}
    (h : Written contentsDir call.newV4 chunk.2 s t)
    (hrun : exec (writeChunk A contentsDir header contentKey call chunk) t =
      (.ok ⟨⟩, t')) :
    Written contentsDir call.newV4 (chunk.2 + 1) s t' := by
  have hindex : t'.index = t.index := by
    have h : (exec (writeChunk A contentsDir header contentKey call chunk) t).2.index =
        t.index := index_writeChunk chunk
    rwa [hrun] at h
  have hframe : SameFilesExcept
      {chunkPathOf U contentsDir call.newV4 (UInt32.ofNat chunk.2)} t t' := by
    have h : SameFilesExcept {chunkPathOf U contentsDir call.newV4 (UInt32.ofNat chunk.2)} t
        (exec (writeChunk A contentsDir header contentKey call chunk) t).2 :=
      sameFilesExcept_writeChunk chunk (fun _ _ => rfl) rfl
    rwa [hrun] at h
  refine ⟨hindex.trans h.index, fun path => ?_⟩
  by_cases heq : path = chunkPathOf U contentsDir call.newV4 (UInt32.ofNat chunk.2)
  · obtain ⟨blob, _, hfile⟩ := writeChunk_ok hrun
    rw [heq, hfile]
    exact iff_of_true rfl (.inl ⟨chunk.2, Nat.lt_succ_self _, rfl⟩)
  · rw [hframe path heq, h.files]
    refine or_congr_left ⟨?_, ?_⟩
    · rintro ⟨i, hi, hpath⟩
      exact ⟨i, Nat.lt_succ_of_lt hi, hpath⟩
    · rintro ⟨i, hi, hpath⟩
      rcases Nat.lt_succ_iff_lt_or_eq.mp hi with hlt | rfl
      · exact ⟨i, hlt, hpath⟩
      · exact absurd hpath heq

theorem written_slices
    (h : exec (forM (call.slices header.chunkSize)
      (writeChunk A contentsDir header contentKey call)) s = (.ok ⟨⟩, s')) :
    Written contentsDir call.newV4 (call.plaintext.length ⌈/⌉ header.chunkSize.toNat) s s' := by
  have hlength : (call.slices header.chunkSize).length =
      call.plaintext.length ⌈/⌉ header.chunkSize.toNat := by
    simp [WriteCall.slices, length_chunks]
  rw [← hlength]
  refine forM_ok_induction (fun k t => Written contentsDir call.newV4 k s t) ?_ ?_ h
  · intro k chunk t t' hchunk hwritten hrun
    obtain ⟨_, rfl⟩ := getElem?_slices hchunk
    exact hwritten.step hrun
  · exact ⟨rfl, fun path => by simp⟩

/-! ## One write -/

theorem chunkPathOf_eq_dataFile (u : U.Uuid) (i : UInt32) (name : String) :
    dataFile contentsDir name = chunkPathOf U contentsDir u i ↔
      name = chunkFileName U u i :=
  dataFile_injective.eq_iff

/-- Chunk names tell the entries of a store apart. -/
theorem Represents.chunkName_inj {chunkSize : UInt32} (h : Represents U contentsDir chunkSize s)
    {a b : VaultIndexEntry} (ha : a ∈ s.index.entries) (hb : b ∈ s.index.entries)
    {i j : UInt32} (hname : a.chunkName i = b.chunkName j) : a = b ∧ i = j := by
  obtain ⟨u, hu⟩ := h.fileId_uuid a ha
  obtain ⟨v, hv⟩ := h.fileId_uuid b hb
  rw [VaultIndexEntry.chunkName, VaultIndexEntry.chunkName, hu, hv] at hname
  obtain ⟨rfl, hij⟩ := chunkFileName_inj hname
  exact ⟨List.inj_on_of_nodup_map h.fileIds_nodup ha hb (hu.trans hv.symm), hij⟩

theorem removeExisting_of_find_none (hfind : s.index.find call.logicalPath = none)
    (h : exec (removeExisting contentsDir header call) s = (.ok ⟨⟩, s')) : s' = s := by
  unfold removeExisting at h
  rw [exec_bind, exec_get] at h
  simp only [hfind] at h
  cases h
  rfl

/-- Removing the entry of a path with its chunk files. -/
theorem Represents.removeExisting
    (h : Represents U contentsDir header.chunkSize s) (hhonest : HonestRemovals call.faults)
    (hremove : exec (removeExisting contentsDir header call) s = (.ok ⟨⟩, s')) :
    Represents U contentsDir header.chunkSize s' := by
  have hindex := removeExisting_ok hremove
  have hmem {e : VaultIndexEntry} : e ∈ s'.index.entries ↔
      e ∈ s.index.entries ∧ e.path ≠ call.logicalPath := by
    rw [hindex, entries_retain, List.mem_filter, bne_iff_ne]
  have hsublist : s'.index.entries.Sublist s.index.entries := by
    rw [hindex]
    exact List.filter_sublist
  constructor
  · exact h.paths_nodup.sublist (hsublist.map _)
  · exact h.fileIds_nodup.sublist (hsublist.map _)
  · exact fun e he => h.path_valid e (hmem.mp he).1
  · exact fun e he => h.fileId_uuid e (hmem.mp he).1
  · intro name
    cases hfind : s.index.find call.logicalPath with
    | none =>
        rw [removeExisting_of_find_none hfind hremove]
        exact h.chunkFiles name
    | some old =>
        have hold := mem_of_find hfind
        obtain ⟨u, hu⟩ := h.fileId_uuid old hold
        have hparse : U.parseStr old.fileId = some u := by
          rw [hu, U.parseStr_toString]
        obtain ⟨t, hremoved, rfl⟩ := removeExisting_removed hhonest hfind hparse hremove
        have hname (i : UInt32) : dataFile contentsDir name = chunkPathOf U contentsDir u i ↔
            name = old.chunkName i := by
          rw [chunkPathOf_eq_dataFile, VaultIndexEntry.chunkName, hu]
          rfl
        have hnat (i : UInt32) : UInt32.ofNat i.toNat = i := UInt32.ofNat_toNat
        by_cases hchunk : old.HasChunk header.chunkSize name
        · obtain ⟨i, hi, hi'⟩ := hchunk
          have hgone := hremoved.gone i.toNat (UInt32.lt_iff_toNat_lt.mp hi)
          rw [hnat, ← (hname i).mpr hi'] at hgone
          dsimp only
          rw [hgone]
          refine iff_of_false (by simp) ?_
          rintro ⟨e, he, j, _, hj⟩
          obtain ⟨hentries, hpath⟩ := hmem.mp he
          obtain ⟨rfl, _⟩ := h.chunkName_inj hentries hold (hj.symm.trans hi')
          exact hpath (path_of_find hfind)
        · have hkept := hremoved.kept (dataFile contentsDir name) fun i hi heq =>
            hchunk ⟨UInt32.ofNat i, ?_, (hname _).mp heq⟩
          · dsimp only
            rw [hkept, h.chunkFiles]
            refine exists_congr fun e => and_congr_left fun he => ?_
            rw [hmem, iff_self_and]
            intro hentries hpath
            have hsame : e = old := List.inj_on_of_nodup_map h.paths_nodup hentries hold
              (hpath.trans (path_of_find hfind).symm)
            exact hchunk (hsame ▸ he)
          · have hlt := (chunkCount old.size header.chunkSize).toNat_lt
            rw [UInt32.lt_iff_toNat_lt, UInt32.toNat_ofNat', Nat.mod_eq_of_lt (by omega)]
            exact hi

/-- A write that succeeds, of fewer than `2 ^ 32` chunks. -/
theorem Represents.write (h : Represents U contentsDir header.chunkSize s)
    (hhonest : HonestRemovals call.faults)
    (hfresh : ∀ e ∈ s.index.entries, e.fileId ≠ call.fileId)
    (hfits : call.plaintext.length ⌈/⌉ header.chunkSize.toNat < 2 ^ 32)
    (hok : exec (writeLogicalFile A contentsDir header contentKey call) s =
      (.ok ⟨⟩, s')) : Represents U contentsDir header.chunkSize s' := by
  obtain ⟨hpath, hchunk, s₁, s₂, hremove, hwrite, rfl⟩ := writeLogicalFile_parts hok
  have hold := h.removeExisting hhonest hremove
  have hwritten := written_slices hwrite
  have hentries : (s₂.index.push call.entry).entries = s₁.index.entries ++ [call.entry] := by
    rw [entries_push, hwritten.index]
  have hindex : s₁.index.entries = s.index.entries.filter (·.path != call.logicalPath) := by
    rw [removeExisting_ok hremove, entries_retain]
  have hcount : (chunkCount call.entry.size header.chunkSize).toNat =
      call.plaintext.length ⌈/⌉ header.chunkSize.toNat := by
    rw [chunkCount_toNat _ hchunk, entry_size_toNat, Nat.mod_eq_of_lt hfits]
  constructor <;> dsimp only
  · rw [hentries, List.map_append, List.map_singleton, ← List.concat_eq_append,
      List.nodup_concat]
    refine ⟨?_, hold.paths_nodup⟩
    rw [hindex, List.mem_map]
    rintro ⟨e, he, heq⟩
    have hne : e.path ≠ call.logicalPath := by simpa using (List.mem_filter.mp he).2
    exact hne heq
  · rw [hentries, List.map_append, List.map_singleton, ← List.concat_eq_append,
      List.nodup_concat]
    refine ⟨?_, hold.fileIds_nodup⟩
    rw [hindex, List.mem_map]
    rintro ⟨e, he, heq⟩
    exact hfresh e (List.mem_of_mem_filter he) heq
  · rw [hentries, List.forall_mem_append, List.forall_mem_singleton]
    exact ⟨hold.path_valid, hpath⟩
  · rw [hentries, List.forall_mem_append, List.forall_mem_singleton]
    exact ⟨hold.fileId_uuid, call.newV4, rfl⟩
  · intro name
    rw [hentries, hwritten.files, hold.chunkFiles]
    have hnew : (∃ i < call.plaintext.length ⌈/⌉ header.chunkSize.toNat,
          dataFile contentsDir name = chunkPathOf U contentsDir call.newV4 (UInt32.ofNat i)) ↔
        call.entry.HasChunk header.chunkSize name := by
      rw [← hcount]
      constructor
      · rintro ⟨i, hi, heq⟩
        have hlt := (chunkCount call.entry.size header.chunkSize).toNat_lt
        refine ⟨UInt32.ofNat i, ?_, (chunkPathOf_eq_dataFile _ _ _).mp heq⟩
        rw [UInt32.lt_iff_toNat_lt, UInt32.toNat_ofNat', Nat.mod_eq_of_lt (by omega)]
        exact hi
      · rintro ⟨i, hi, heq⟩
        refine ⟨i.toNat, UInt32.lt_iff_toNat_lt.mp hi, ?_⟩
        rw [UInt32.ofNat_toNat]
        exact (chunkPathOf_eq_dataFile _ _ _).mpr heq
    rw [hnew, or_comm]
    simp [or_and_right, exists_or]

/-! ## Runs of writes -/

/-- A successful write. -/
def writeStep (A : XChaCha20Poly1305) (contentsDir : PathBuf) (header : VaultHeader U)
    (contentKey : ContentKey) (s : ContentsStore) (call : WriteCall U) :
    Option ContentsStore :=
  match exec (writeLogicalFile A contentsDir header contentKey call) s with
  | (.ok _, s') => some s'
  | (.error _, _) => none

theorem writeStep_eq_some :
    writeStep A contentsDir header contentKey s call = some s' ↔
      exec (writeLogicalFile A contentsDir header contentKey call) s = (.ok ⟨⟩, s') := by
  unfold writeStep
  rcases exec (writeLogicalFile A contentsDir header contentKey call) s with ⟨_ | _, t⟩
  · simp
  · simp

/-- The plaintext has fewer than `2 ^ 32` chunks. -/
def FewChunks (header : VaultHeader U) (_ : ContentsStore) (call : WriteCall U)
    (_ : ContentsStore) : Prop :=
  call.plaintext.length ⌈/⌉ header.chunkSize.toNat < 2 ^ 32

/-- The index and `data/` describe each other after every run of such writes. -/
theorem represents_run {calls : List (WriteCall U)} (hempty : IsEmptyStore contentsDir s)
    (hfresh : (calls.map (·.newV4)).Nodup)
    (hhonest : ∀ call ∈ calls, HonestRemovals call.faults)
    (hrun : Run (writeStep A contentsDir header contentKey) (FewChunks header) s calls s') :
    Represents U contentsDir header.chunkSize s' := by
  suffices h : Represents U contentsDir header.chunkSize s' ∧
      ∀ e ∈ s'.index.entries, ∃ call ∈ calls, e = call.entry from h.1
  induction hrun with
  | refl =>
      refine ⟨represents_of_isEmptyStore hempty, ?_⟩
      simp [hempty.entries]
  | @tail m m' calls call _ hstep hok ih =>
      rw [List.map_append, List.map_singleton, ← List.concat_eq_append,
        List.nodup_concat] at hfresh
      obtain ⟨hrep, hmem⟩ := ih hfresh.2 fun c hc => hhonest c (List.mem_append_left _ hc)
      have hwrite := writeStep_eq_some.mp hstep
      refine ⟨hrep.write (hhonest call (by simp)) ?_ hok hwrite, ?_⟩
      · intro e he heq
        obtain ⟨earlier, hearlier, rfl⟩ := hmem e he
        have hsame : earlier.newV4 = call.newV4 := UuidCrate.toString_injective heq
        exact hfresh.1 (hsame ▸ List.mem_map_of_mem hearlier)
      · intro e he
        have hlast : m' = (exec (writeLogicalFile A contentsDir header contentKey call) m).2 := by
          rw [hwrite]
        rw [hlast] at he
        rcases mem_entries_writeLogicalFile he with he | rfl
        · obtain ⟨earlier, hearlier, rfl⟩ := hmem e he
          exact ⟨earlier, List.mem_append_left _ hearlier, rfl⟩
        · exact ⟨call, by simp, rfl⟩

end

/-! ## Sample runs -/

/-- Two writes of one path. -/
theorem represents_run_sample :
    ∃ s', Run (writeStep sampleCipher "contents" sampleHeader sampleKey)
        (FewChunks sampleHeader) emptyStore [write123, write4] s' ∧
      Represents UuidCrate.hyphenated "contents" sampleHeader.chunkSize s' := by
  have hfirst : (exec (writeLogicalFile sampleCipher "contents" sampleHeader sampleKey
      write123) emptyStore).1 = .ok ⟨⟩ := by
    refine writeLogicalFile_succeeds (logicalPathInvalid_sampleCall _ _ _) (by decide)
      (fun _ => rfl) (fun _ _ _ _ => rfl) fun _ he => ?_
    cases he
  obtain ⟨s₁, hwrite⟩ := exists_exec_eq hfirst
  have hstore : store123 = s₁ := by
    rw [store123, runWrites, List.foldl_cons, List.foldl_nil, hwrite]
  obtain ⟨s₂, hwrite'⟩ := exists_exec_eq (hstore ▸ write4_succeeds)
  have hrun : Run (writeStep sampleCipher "contents" sampleHeader sampleKey)
      (FewChunks sampleHeader) emptyStore [write123, write4] s₂ :=
    .cons (writeStep_eq_some.mpr hwrite)
      (show 3 ⌈/⌉ 2 < 2 ^ 32 by rw [Nat.ceilDiv_eq_add_pred_div]; omega)
      (.cons (writeStep_eq_some.mpr hwrite')
        (show 1 ⌈/⌉ 2 < 2 ^ 32 by rw [Nat.ceilDiv_eq_add_pred_div]; omega) (.refl _))
  exact ⟨s₂, hrun, represents_run ⟨rfl, fun _ => rfl⟩ (by decide)
    (fun call hcall path error hfault => by
      rcases List.mem_pair.mp hcall with rfl | rfl <;> cases hfault) hrun⟩

def byteHeader : VaultHeader UuidCrate.hyphenated := { sampleHeader with chunkSize := 1 }

/-- The count of such a file is 0, so nothing in the index accounts for its
chunk files. -/
theorem notRepresented_of_length {plaintext : Bytes} (hlength : plaintext.length = 2 ^ 32)
    (hlt : plaintext.length < 2 ^ 64) :
    ∃ s', Run (writeStep sampleCipher "contents" byteHeader sampleKey) Always emptyStore
        [sampleCall "a" plaintext uuidA hlt] s' ∧
      ¬ Represents UuidCrate.hyphenated "contents" byteHeader.chunkSize s' := by
  set call := sampleCall "a" plaintext uuidA hlt with hcall
  have hchunks : call.plaintext.length ⌈/⌉ byteHeader.chunkSize.toNat = 2 ^ 32 := by
    have hsize : byteHeader.chunkSize.toNat = 1 := rfl
    rw [hsize, Nat.ceilDiv_eq_add_pred_div, Nat.div_one, Nat.add_sub_cancel]
    exact hlength
  have hok : (exec (writeLogicalFile sampleCipher "contents" byteHeader sampleKey call)
      emptyStore).1 = .ok ⟨⟩ := by
    refine writeLogicalFile_succeeds (logicalPathInvalid_sampleCall _ _ _) (by decide)
      (fun _ => rfl) (fun _ _ _ _ => rfl) fun _ he => ?_
    cases he
  obtain ⟨s', hwrite⟩ := exists_exec_eq hok
  refine ⟨s', .tail (.refl _) (writeStep_eq_some.mpr hwrite) trivial, fun hrep => ?_⟩
  obtain ⟨_, hindex, hstored⟩ := writeLogicalFile_ok hwrite
  obtain ⟨blob, _, hfile⟩ := hstored hchunks.le 0 (by rw [hchunks]; omega)
  have hentries : s'.index.entries = [call.entry] := by
    rw [hindex]
    rfl
  have hcount : (chunkCount call.entry.size byteHeader.chunkSize).toNat = 0 := by
    rw [chunkCount_toNat _ (by decide), entry_size_toNat, hchunks, Nat.mod_self]
  have hchunk : (s'.files (dataFile "contents"
      (chunkFileName UuidCrate.hyphenated call.newV4 (UInt32.ofNat 0)))).isSome := by
    rw [(chunkPathOf_eq_dataFile _ _ _).mpr rfl, hfile]
    rfl
  obtain ⟨e, he, i, hi, _⟩ := (hrep.chunkFiles _).mp hchunk
  rw [hentries, List.mem_singleton] at he
  subst he
  rw [UInt32.lt_iff_toNat_lt, hcount] at hi
  exact Nat.not_lt_zero _ hi

/-- 4 GiB in chunks of one byte. -/
theorem write4GiB_notRepresented :
    ∃ (hlt : (List.replicate (2 ^ 32) (0 : UInt8)).length < 2 ^ 64) (s' : ContentsStore),
      IsEmptyStore "contents" emptyStore ∧
      Run (writeStep sampleCipher "contents" byteHeader sampleKey) Always emptyStore
        [sampleCall "a" (List.replicate (2 ^ 32) 0) uuidA hlt] s' ∧
      ¬ Represents UuidCrate.hyphenated "contents" byteHeader.chunkSize s' := by
  have hlength (b : UInt8) : (List.replicate (2 ^ 32) b).length = 2 ^ 32 :=
    List.length_replicate
  have hlt : (List.replicate (2 ^ 32) (0 : UInt8)).length < 2 ^ 64 := by
    rw [hlength]
    omega
  obtain ⟨s', hrun, hrep⟩ := notRepresented_of_length (hlength 0) hlt
  exact ⟨hlt, s', ⟨rfl, fun _ => rfl⟩, hrun, hrep⟩

end Upriv.Contents
