import Upriv.Contents.Unlock

/-!
# Overwriting when a step fails

`write_logical_file` takes the old file of a path away before it writes the
new one, and the caller seals the index later.  A write that fails before the
first chunk file is removed leaves the store as it was; every later failure
loses the old content.
-/

namespace Upriv.Contents

open FallibleM

section
variable {U : UuidCrate} {A : XChaCha20Poly1305} {contentsDir : PathBuf}
  {header : VaultHeader U} {contentKey : ContentKey} {call : WriteCall U}
  {old : VaultIndexEntry} {s s' : ContentsStore} {error : UprivError}

/-- The call stops before it removes a chunk file of the entry `old`: the path
or the chunk size is refused, or the first removal fails. -/
def FailsBeforeRemoval (contentsDir : PathBuf) (header : VaultHeader U)
    (call : WriteCall U) (old : VaultIndexEntry) : Prop :=
  logicalPathInvalid call.logicalPath = true ∨ header.chunkSize = 0 ∨
  (chunkCount old.size header.chunkSize ≠ 0 ∧
    ∀ u, U.parseStr old.fileId = some u →
      ∃ ioError, call.faults (.removeFile (chunkPathOf U contentsDir u 0)) = some ioError)

/-- The first chunk is gone, or the entry is. -/
structure LateFailure (contentsDir : PathBuf) (header : VaultHeader U)
    (call : WriteCall U) (old : VaultIndexEntry) (s s' : ContentsStore) : Prop where
  index : s'.index = s.index ∧ chunkCount old.size header.chunkSize ≠ 0 ∨
    s'.index = s.index.retain call.logicalPath
  gone : chunkCount old.size header.chunkSize ≠ 0 →
    ∃ u, U.parseStr old.fileId = some u ∧ s'.files (chunkPathOf U contentsDir u 0) = none
  kept : ∀ path, path ∉ chunkPathsOf U contentsDir call.newV4 →
    (chunkCount old.size header.chunkSize = 0 ∨
      ∀ u, U.parseStr old.fileId = some u → path ∉ chunkPathsOf U contentsDir u) →
    s'.files path = s.files path

/-! ## The two kinds of failure -/

/-- The first round of the removal loop fails. -/
theorem removeFileChunks_first_fails {faults : Faults} {fileId : String}
    {fileSize : UInt64} {chunkSize : UInt32} (hhonest : HonestRemovals faults)
    (hcount : chunkCount fileSize chunkSize ≠ 0)
    (hfirst : ∀ u, U.parseStr fileId = some u →
      ∃ ioError, faults (.removeFile (chunkPathOf U contentsDir u 0)) = some ioError) :
    ∃ error, exec (removeFileChunks U contentsDir faults fileId fileSize chunkSize) s =
      (.error error, s) := by
  have hpos : (chunkCount fileSize chunkSize).toNat ≠ 0 :=
    fun h => hcount (UInt32.toNat_inj.mp h)
  obtain ⟨n, hn⟩ := Nat.exists_eq_succ_of_ne_zero hpos
  rw [removeFileChunks, hn, List.range_succ_eq_map, List.forM_cons]
  have hround : ∃ error, exec (do
      let path ← FallibleM.ofExcept (chunkFilePath U contentsDir fileId (UInt32.ofNat 0))
      removeFile faults path) s = (.error error, s) := by
    rw [exec_ofExcept_bind, chunkFilePath]
    cases hparse : U.parseStr fileId with
    | none => exact ⟨_, rfl⟩
    | some u =>
        obtain ⟨ioError, hfault⟩ := hfirst u hparse
        refine ⟨.io ioError, ?_⟩
        simp [removeFile, hfault, hhonest _ _ hfault]
  obtain ⟨error, hround⟩ := hround
  exact ⟨error, exec_bind_of_error hround _⟩

theorem writeLogicalFile_early (hhonest : HonestRemovals call.faults)
    (hfind : s.index.find call.logicalPath = some old)
    (hearly : FailsBeforeRemoval contentsDir header call old) :
    (exec (writeLogicalFile A contentsDir header contentKey call) s).2 = s := by
  rw [writeLogicalFile, exec_ofExcept_bind, validateLogicalPath]
  by_cases hpath : logicalPathInvalid call.logicalPath = true
  · rw [if_pos hpath]
  · rw [if_neg hpath]
    dsimp only
    by_cases hchunk : header.chunkSize = 0
    · rw [if_pos hchunk]
      rfl
    · rw [if_neg hchunk]
      obtain ⟨hcount, hfirst⟩ := (hearly.resolve_left hpath).resolve_left hchunk
      obtain ⟨error, hfails⟩ := removeFileChunks_first_fails (s := s) hhonest hcount hfirst
      have hremove : exec (removeExisting contentsDir header call) s = (.error error, s) := by
        rw [removeExisting, exec_bind, exec_get]
        simp only [hfind]
        exact exec_bind_of_error hfails _
      rw [exec_bind_of_error hremove]

/-- A later round fails: what was removed before it stays removed. -/
theorem removeFileChunks_late_error {faults : Faults} {fileId : String}
    {fileSize : UInt64} {chunkSize : UInt32} {u : U.Uuid} (hhonest : HonestRemovals faults)
    (hparse : U.parseStr fileId = some u)
    (hfirst : faults (.removeFile (chunkPathOf U contentsDir u 0)) = none)
    (herr : exec (removeFileChunks U contentsDir faults fileId fileSize chunkSize) s =
      (.error error, s')) : ∃ k, 0 < k ∧ Removed contentsDir u k s s' := by
  obtain ⟨k, index, t, hindex, hremoved, hround⟩ := forM_error_induction
    (fun k t => Removed contentsDir u k s t) (Removed.round hhonest hparse)
    (removed_zero contentsDir u s) herr
  obtain rfl : k = index := by
    rw [List.getElem?_eq_some_iff] at hindex
    obtain ⟨_, rfl⟩ := hindex
    rw [List.getElem_range]
  rw [chunkFilePath_of_parseStr hparse, exec_ofExcept_bind] at hround
  simp only [removeFile, exec_op] at hround
  split at hround
  · rename_i ioError hfault
    rw [if_neg (hhonest _ _ hfault)] at hround
    cases hround
    refine ⟨k, Nat.pos_of_ne_zero ?_, hremoved⟩
    rintro rfl
    cases hfirst.symm.trans hfault
  · cases hround

/-- What follows the removal, when it fails, touches neither the index nor
files of other UUIDs. -/
theorem writeRest_error
    (herr : exec (do
      createDirAll call.faults (joinPath contentsDir DATA_DIR_NAME)
      forM (call.slices header.chunkSize) (writeChunk A contentsDir header contentKey call)
      modify fun s => { s with index := s.index.push call.entry }) s = (.error error, s')) :
    s'.index = s.index ∧ SameFilesExcept (chunkPathsOf U contentsDir call.newV4) s s' := by
  have hindexDir := index_createDirAll (s := s) call.faults (joinPath contentsDir DATA_DIR_NAME)
  have hframeDir : SameFilesExcept (chunkPathsOf U contentsDir call.newV4) s
      (exec (createDirAll call.faults (joinPath contentsDir DATA_DIR_NAME)) s).2 :=
    sameFilesExcept_createDirAll call.faults _ fun _ _ => rfl
  rw [exec_bind] at herr
  rcases hdir : exec (createDirAll call.faults (joinPath contentsDir DATA_DIR_NAME)) s with
    ⟨e | _, t⟩
  · rw [hdir] at herr hindexDir hframeDir
    cases herr
    exact ⟨hindexDir, hframeDir⟩
  · obtain rfl := createDirAll_ok hdir
    rw [hdir] at herr
    dsimp only at herr
    have hindex := index_writeChunks A contentsDir header contentKey call
      (call.slices header.chunkSize) t
    have hframe := sameFilesExcept_writeChunks A contentsDir header contentKey call
      (call.slices header.chunkSize) t
    rw [exec_bind] at herr
    rcases hloop : exec (forM (call.slices header.chunkSize)
        (writeChunk A contentsDir header contentKey call)) t with ⟨e | _, t'⟩
    · rw [hloop] at herr hindex hframe
      cases herr
      exact ⟨hindex, hframe⟩
    · rw [hloop] at herr
      cases herr

theorem lateFailure_of_error (hhonest : HonestRemovals call.faults)
    (hfind : s.index.find call.logicalPath = some old)
    (hfresh : U.parseStr old.fileId ≠ some call.newV4)
    (hlate : ¬ FailsBeforeRemoval contentsDir header call old)
    (herr : exec (writeLogicalFile A contentsDir header contentKey call) s =
      (.error error, s')) : LateFailure contentsDir header call old s s' := by
  obtain ⟨hpath, hrest⟩ := not_or.mp hlate
  obtain ⟨hchunk, hremoves⟩ := not_or.mp hrest
  rw [writeLogicalFile, exec_ofExcept_bind, validateLogicalPath, if_neg hpath] at herr
  dsimp only at herr
  rw [if_neg hchunk] at herr
  -- Without chunks to remove only the entry goes.
  by_cases hcount : chunkCount old.size header.chunkSize = 0
  · have hremove : exec (removeExisting contentsDir header call) s =
        (.ok ⟨⟩, { s with index := s.index.retain call.logicalPath }) := by
      rw [removeExisting, exec_bind, exec_get]
      simp only [hfind, removeFileChunks, hcount]
      rfl
    rw [exec_bind_of_ok hremove] at herr
    obtain ⟨hindex, hframe⟩ := writeRest_error herr
    exact ⟨.inr hindex, fun h => absurd hcount h, fun path hnew _ => hframe path hnew⟩
  · obtain ⟨u, hparse, hfirst⟩ : ∃ u, U.parseStr old.fileId = some u ∧
        call.faults (.removeFile (chunkPathOf U contentsDir u 0)) = none := by
      by_contra hnone
      refine hremoves ⟨hcount, fun u hparse => ?_⟩
      by_contra hfault
      exact hnone ⟨u, hparse, Option.eq_none_iff_forall_ne_some.mpr fun ioError hsome =>
        hfault ⟨ioError, hsome⟩⟩
    have hne : u ≠ call.newV4 := by
      rintro rfl
      exact hfresh hparse
    have hchunk0 : UInt32.ofNat 0 = 0 := rfl
    have hpos : 0 < (chunkCount old.size header.chunkSize).toNat :=
      Nat.pos_of_ne_zero fun h => hcount (UInt32.toNat_inj.mp h)
    rw [exec_bind] at herr
    rcases hremove : exec (removeExisting contentsDir header call) s with ⟨e | _, s₁⟩
    · -- A removal after the first one fails.
      rw [hremove] at herr
      cases herr
      rw [removeExisting, exec_bind, exec_get] at hremove
      simp only [hfind] at hremove
      rw [exec_bind] at hremove
      rcases hloop : exec (removeFileChunks U contentsDir call.faults old.fileId old.size
          header.chunkSize) s with ⟨e' | _, t⟩
      · rw [hloop] at hremove
        cases hremove
        obtain ⟨k, hk, hremoved⟩ := removeFileChunks_late_error hhonest hparse hfirst hloop
        refine ⟨.inl ⟨hremoved.index, hcount⟩, fun _ => ⟨u, hparse, ?_⟩, ?_⟩
        · rw [← hchunk0]
          exact hremoved.gone 0 hk
        · intro path _ hother
          refine hremoved.kept path fun i _ hpath => ?_
          exact hother.resolve_left hcount u hparse (hpath ▸ chunkPathOf_mem u _)
      · rw [hloop] at hremove
        cases hremove
    · rw [hremove] at herr
      dsimp only at herr
      obtain ⟨t, hremoved, rfl⟩ := removeExisting_removed hhonest hfind hparse hremove
      obtain ⟨hindex, hframe⟩ := writeRest_error herr
      refine ⟨.inr ?_, fun _ => ⟨u, hparse, ?_⟩, ?_⟩
      · rw [hindex, hremoved.index]
      · rw [hframe _ (chunkPathOf_not_mem hne _), ← hchunk0]
        exact hremoved.gone 0 hpos
      · intro path hnew hother
        refine (hframe path hnew).trans (hremoved.kept path fun i _ hpath => ?_)
        exact hother.resolve_left hcount u hparse (hpath ▸ chunkPathOf_mem u _)

end

/-! ## What stays readable -/

section
variable {U : UuidCrate} (C : StoreCrates U) (contentsDir : PathBuf)
  (header : VaultHeader U) (contentKey : ContentKey) (indexKey : IndexKey)
  (s s' : ContentsStore)

/-- A read through the index in memory. -/
def readOpen (path : String) : Result Bytes :=
  readLogicalFile C.xchacha contentsDir header contentKey s.read s.index path

/-- The index that the sealed file on disk holds. -/
def sealedIndex : Result VaultIndex := do
  let blob ← (s.read (indexPath contentsDir)).mapError UprivError.io
  let plain ← openIndex C indexKey blob (indexAad header)
  let index ← decodeIndex C plain
  if index.formatVersion = FORMAT_VERSION then .ok index
  else .error (.vaultStoreInvalid (indexPath contentsDir)
    ("unsupported index format_version " ++ Nat.repr index.formatVersion.toNat))

/-- A read through the sealed index on disk. -/
def readSealed (path : String) : Result Bytes := do
  let index ← sealedIndex C contentsDir header indexKey s
  readLogicalFile C.xchacha contentsDir header contentKey s.read index path

/-- Every path readable in `s` is readable in `s'`, with the same content. -/
def KeepsReadable : Prop :=
  (∀ path plain, readOpen C contentsDir header contentKey s path = .ok plain →
    readOpen C contentsDir header contentKey s' path = .ok plain) ∧
  ∀ path plain, readSealed C contentsDir header contentKey indexKey s path = .ok plain →
    readSealed C contentsDir header contentKey indexKey s' path = .ok plain

/-- The entry `e` has chunks, and they belong to the UUID of `old`. -/
def SharesChunks {U : UuidCrate} (header : VaultHeader U) (old e : VaultIndexEntry) : Prop :=
  chunkCount e.size header.chunkSize ≠ 0 ∧
    ∃ u, U.parseStr old.fileId = some u ∧ U.parseStr e.fileId = some u

/-- Nothing that was readable goes with the old file of the path: the path
itself was not readable, and no readable path shares its chunks. -/
structure NothingReadableLost (call : WriteCall U) (old : VaultIndexEntry) : Prop where
  unreadable : ∀ plain, readOpen C contentsDir header contentKey s call.logicalPath ≠ .ok plain
  open_apart : chunkCount old.size header.chunkSize ≠ 0 → ∀ path plain e,
    readOpen C contentsDir header contentKey s path = .ok plain →
    s.index.find path = some e → ¬ SharesChunks header old e
  sealed_apart : chunkCount old.size header.chunkSize ≠ 0 → ∀ path plain index e,
    readSealed C contentsDir header contentKey indexKey s path = .ok plain →
    sealedIndex C contentsDir header indexKey s = .ok index →
    index.find path = some e → ¬ SharesChunks header old e

end

section
variable {U : UuidCrate} {C : StoreCrates U} {contentsDir : PathBuf}
  {header : VaultHeader U} {contentKey : ContentKey} {indexKey : IndexKey}
  {call : WriteCall U} {old : VaultIndexEntry} {s s' : ContentsStore} {error : UprivError}
  {index : VaultIndex} {path : String}

/-- The sealed index is not a chunk file. -/
theorem LateFailure.sealedIndex_eq (h : LateFailure contentsDir header call old s s') :
    sealedIndex C contentsDir header indexKey s' = sealedIndex C contentsDir header indexKey s := by
  have hkept := h.kept (indexPath contentsDir)
    (fun ⟨i, hi⟩ => chunkPathOf_ne_indexPath _ i _ hi)
    (.inr fun u _ ⟨i, hi⟩ => chunkPathOf_ne_indexPath u i _ hi)
  rw [sealedIndex, sealedIndex, ContentsStore.read, ContentsStore.read, hkept]

/-- A path whose entry does not share chunks with the old one reads as before. -/
theorem LateFailure.read_eq (h : LateFailure contentsDir header call old s s')
    {index' : VaultIndex} (hfind : index'.find path = index.find path)
    (hfresh : ∀ e, index.find path = some e → U.parseStr e.fileId ≠ some call.newV4)
    (hapart : chunkCount old.size header.chunkSize ≠ 0 →
      ∀ e, index.find path = some e → ¬ SharesChunks header old e) :
    readLogicalFile C.xchacha contentsDir header contentKey s'.read index' path =
      readLogicalFile C.xchacha contentsDir header contentKey s.read index path := by
  refine readLogicalFile_congr hfind fun e u i he hparse hi => ?_
  rw [hfind] at he
  have hcount : chunkCount e.size header.chunkSize ≠ 0 := by
    intro hzero
    rw [hzero] at hi
    exact Nat.not_lt_zero _ hi
  have hkept := h.kept (chunkPathOf U contentsDir u (UInt32.ofNat i)) ?_ ?_
  · rw [ContentsStore.read, ContentsStore.read, hkept]
  · refine chunkPathOf_not_mem ?_ _
    rintro rfl
    exact hfresh e he hparse
  · by_cases hold : chunkCount old.size header.chunkSize = 0
    · exact .inl hold
    · refine .inr fun v hv => chunkPathOf_not_mem ?_ _
      rintro rfl
      exact hapart hold e he ⟨hcount, u, hv, hparse⟩

/-- A path whose entry shares chunks with the old one is lost. -/
theorem LateFailure.read_lost (h : LateFailure contentsDir header call old s s')
    (hold : chunkCount old.size header.chunkSize ≠ 0) {e : VaultIndexEntry}
    (hfind : index.find path = some e) (hshares : SharesChunks header old e) (plain : Bytes) :
    readLogicalFile C.xchacha contentsDir header contentKey s'.read index path ≠ .ok plain := by
  obtain ⟨hcount, u, hu, hparse⟩ := hshares
  obtain ⟨v, hv, hgone⟩ := h.gone hold
  obtain rfl : u = v := Option.some.inj (hu.symm.trans hv)
  have hpos : 0 < (chunkCount e.size header.chunkSize).toNat :=
    Nat.pos_of_ne_zero fun hzero => hcount (UInt32.toNat_inj.mp hzero)
  rw [readLogicalFile_missing_first e hfind hparse hpos (by rw [ContentsStore.read, hgone])]
  intro hok
  cases hok

/-- After a late failure the path itself cannot be read. -/
theorem LateFailure.path_lost (h : LateFailure contentsDir header call old s s')
    (hfind : s.index.find call.logicalPath = some old) (plain : Bytes) :
    readOpen C contentsDir header contentKey s' call.logicalPath ≠ .ok plain := by
  rcases h.index with ⟨hindex, hcount⟩ | hindex
  · obtain ⟨u, hu, _⟩ := h.gone hcount
    rw [readOpen, hindex]
    exact h.read_lost hcount hfind ⟨hcount, u, hu, hu⟩ plain
  · rw [readOpen, hindex, readLogicalFile, find_retain_self]
    intro hok
    cases hok

/-- A failed overwrite keeps what was readable exactly when it fails before the
first removal, or has nothing readable to lose. -/
theorem overwrite_keepsReadable_iff
    (hfind : s.index.find call.logicalPath = some old)
    (hhonest : HonestRemovals call.faults)
    (hfresh : ∀ e ∈ s.index.entries, U.parseStr e.fileId ≠ some call.newV4)
    (hfreshSealed : ∀ index, sealedIndex C contentsDir header indexKey s = .ok index →
      ∀ e ∈ index.entries, U.parseStr e.fileId ≠ some call.newV4)
    (herr : exec (writeLogicalFile C.xchacha contentsDir header contentKey call) s =
      (.error error, s')) :
    KeepsReadable C contentsDir header contentKey indexKey s s' ↔
      FailsBeforeRemoval contentsDir header call old ∨
      NothingReadableLost C contentsDir header contentKey indexKey s call old := by
  by_cases hearly : FailsBeforeRemoval contentsDir header call old
  · have hsame : s' = s := by
      have h : (exec (writeLogicalFile C.xchacha contentsDir header contentKey call) s).2 =
          s := writeLogicalFile_early hhonest hfind hearly
      rwa [herr] at h
    subst hsame
    exact iff_of_true ⟨fun _ _ h => h, fun _ _ h => h⟩ (.inl hearly)
  · have hlate := lateFailure_of_error hhonest hfind (hfresh old (mem_of_find hfind))
      hearly herr
    rw [or_iff_right hearly]
    constructor
    · rintro ⟨hopen, hsealed⟩
      constructor
      · exact fun plain h => hlate.path_lost hfind plain (hopen _ plain h)
      · intro hcount path plain e hread he hshares
        have hread' := hopen path plain hread
        rcases hlate.index with ⟨hindex, _⟩ | hindex
        · rw [readOpen, hindex] at hread'
          exact hlate.read_lost hcount he hshares plain hread'
        · by_cases hpath : path = call.logicalPath
          · subst hpath
            exact hlate.path_lost hfind plain (hopen _ plain hread)
          · rw [readOpen, hindex] at hread'
            exact hlate.read_lost hcount ((find_retain_of_ne hpath).trans he) hshares plain
              hread'
      · intro hcount path plain index e hread hindex he hshares
        have hread' := hsealed path plain hread
        rw [readSealed, hlate.sealedIndex_eq, hindex, except_ok_bind] at hread'
        exact hlate.read_lost hcount he hshares plain hread'
    · intro hlost
      constructor
      · intro path plain hread
        have hpath : path ≠ call.logicalPath := by
          rintro rfl
          exact hlost.unreadable plain hread
        have hfindPath : s'.index.find path = s.index.find path := by
          rcases hlate.index with ⟨hindex, _⟩ | hindex
          · rw [hindex]
          · rw [hindex, find_retain_of_ne hpath]
        rw [readOpen, hlate.read_eq hfindPath (fun e he => hfresh e (mem_of_find he))
          fun hcount e he => hlost.open_apart hcount path plain e hread he]
        exact hread
      · intro path plain hread
        obtain ⟨index, hindex, _⟩ := except_bind_eq_ok.mp hread
        rw [readSealed, hlate.sealedIndex_eq, hindex, except_ok_bind,
          hlate.read_eq rfl (fun e he => hfreshSealed index hindex e (mem_of_find he))
            fun hcount e he => hlost.sealed_apart hcount path plain index e hread hindex he]
        rwa [readSealed, hindex, except_ok_bind] at hread

end

/-! ## A refused chunk -/

/-- The index of the sample store. -/
def index123 : VaultIndex := VaultIndex.empty.push write123.entry

theorem index123_texts : ∀ p ∈ [(index123, "one file")], ∀ q ∈ [(index123, "one file")],
    p.2 = q.2 → p = q := by
  intro p hp q hq _
  rw [List.mem_singleton.mp hp, List.mem_singleton.mp hq]

def sampleCrates : StoreCrates UuidCrate.hyphenated :=
  .standIn (.ofTable [] noHeaderTexts) (.ofTable [(index123, "one file")] index123_texts)
    (.ofTable [] noPersistenceTexts)

def sampleIndexKey : IndexKey := Vector.replicate INDEX_KEY_LEN 0

def sealed123 : Result Bytes :=
  sealIndex sampleCrates (Vector.replicate AES_SIV_NONCE_LEN 0) sampleIndexKey
    (utf8 "one file".toList) (indexAad sampleHeader)

/-- The sample store after a flush. -/
def flushed123 : ContentsStore :=
  { store123 with
    files := Function.update store123.files (indexPath "contents") sealed123.toOption }

def noSpaceError : IoError := ⟨.other, "No space left on device"⟩

/-- An overwrite of the sample path whose chunk cannot be written. -/
def refusedWrite : WriteCall UuidCrate.hyphenated :=
  { write4 with
    faults := fun fsCall =>
      if fsCall = .writeBytesAtomic (chunkPathOf UuidCrate.hyphenated "contents" uuidB 0) then
        some noSpaceError
      else none }

theorem write123_store123 :
    exec (writeLogicalFile sampleCrates.xchacha "contents" sampleHeader sampleKey write123)
      emptyStore = (.ok ⟨⟩, store123) := by
  have hok : (exec (writeLogicalFile sampleCipher "contents" sampleHeader sampleKey write123)
      emptyStore).1 = .ok ⟨⟩ := by
    refine writeLogicalFile_succeeds (logicalPathInvalid_sampleCall _ _ _) (by decide)
      (fun _ => rfl) (fun _ _ _ _ => rfl) fun _ he => ?_
    cases he
  obtain ⟨s', hwrite⟩ := exists_exec_eq hok
  have hstore : store123 = s' := by
    rw [store123, runWrites, List.foldl_cons, List.foldl_nil, hwrite]
  rw [hstore]
  exact hwrite

theorem index_store123 : store123.index = index123 := by
  rw [(writeLogicalFile_ok write123_store123).2.1]
  rfl

theorem index_flushed123 : flushed123.index = index123 := by
  simp only [flushed123, index_store123]

theorem files_flushed123 {path : PathBuf} (h : path ≠ indexPath "contents") :
    flushed123.files path = store123.files path := by
  rw [flushed123]
  dsimp only
  rw [Function.update_of_ne h]

theorem sealedIndex_flushed123 :
    sealedIndex sampleCrates "contents" sampleHeader sampleIndexKey flushed123 = .ok index123 := by
  have haad : (indexAad sampleHeader).isEmpty = false := by
    rw [List.isEmpty_eq_false_iff]
    exact storeAadBytes_ne_nil _ _ _
  obtain ⟨blob, hblob⟩ : ∃ blob, sealed123 = .ok blob := by
    rw [sealed123, sealIndex, haad]
    exact ⟨_, rfl⟩
  have hencode : encodeIndex sampleCrates index123 = .ok (utf8 "one file".toList) := by
    simp [encodeIndex, sampleCrates, StoreCrates.standIn, JsonCodec.ofTable]
  have hfile : flushed123.files (indexPath "contents") = some blob := by
    rw [flushed123, hblob]
    dsimp only
    rw [Function.update_self]
    rfl
  have hread : flushed123.read (indexPath "contents") = .ok blob := by
    rw [ContentsStore.read, hfile]
  rw [sealedIndex, hread]
  simp only [Except.mapError, except_ok_bind, openIndex_sealIndex hblob,
    decodeIndex_encodeIndex hencode]
  rfl

theorem find_flushed123 :
    flushed123.index.find refusedWrite.logicalPath = some write123.entry := by
  rw [index_flushed123]
  decide

/-- Both indexes read the old content. -/
theorem read_flushed123 :
    readLogicalFile sampleCrates.xchacha "contents" sampleHeader sampleKey flushed123.read
      index123 "a" = .ok [1, 2, 3] := by
  have hfits : write123.plaintext.length ⌈/⌉ sampleHeader.chunkSize.toNat < 2 ^ 32 := by
    change 3 ⌈/⌉ 2 < 2 ^ 32
    rw [Nat.ceilDiv_eq_add_pred_div]
    omega
  have hread : readOpen sampleCrates "contents" sampleHeader sampleKey store123 "a" =
      .ok [1, 2, 3] := by
    have h := read_written hfits write123_store123
    exact h
  rw [readOpen] at hread
  refine Eq.trans (readLogicalFile_congr ?_ fun e u i _ _ _ => ?_) hread
  · rw [index_store123]
  · have hfile : flushed123.files (chunkPathOf UuidCrate.hyphenated "contents" u (.ofNat i)) =
        store123.files (chunkPathOf UuidCrate.hyphenated "contents" u (.ofNat i)) :=
      files_flushed123 (chunkPathOf_ne_indexPath u _ _)
    rw [ContentsStore.read, ContentsStore.read, hfile]

theorem honestRemovals_refusedWrite : HonestRemovals refusedWrite.faults := by
  intro path ioError hfault
  simp [refusedWrite] at hfault

theorem refusedWrite_fails :
    ∃ error s', exec (writeLogicalFile sampleCrates.xchacha "contents" sampleHeader sampleKey
      refusedWrite) flushed123 = (.error error, s') := by
  rcases hexec : exec (writeLogicalFile sampleCrates.xchacha "contents" sampleHeader sampleKey
    refusedWrite) flushed123 with ⟨error | _, s'⟩
  · exact ⟨error, s', rfl⟩
  · rw [writeLogicalFile] at hexec
    obtain ⟨_, _, hrest⟩ := exec_ofExcept_bind_eq_ok_iff.mp hexec
    split at hrest
    · cases hrest
    · obtain ⟨_, s₁, _, hrest⟩ := exec_bind_eq_ok_iff.mp hrest
      obtain ⟨_, s₂, _, hrest⟩ := exec_bind_eq_ok_iff.mp hrest
      obtain ⟨_, s₃, hchunks, _⟩ := exec_bind_eq_ok_iff.mp hrest
      have hslices : refusedWrite.slices sampleHeader.chunkSize = [([4], 0)] := by decide
      rw [hslices, List.forM_cons] at hchunks
      obtain ⟨_, s₄, hchunk, _⟩ := exec_bind_eq_ok_iff.mp hchunks
      obtain ⟨blob, _, hwrite⟩ := exec_ofExcept_bind_eq_ok_iff.mp hchunk
      obtain ⟨path, hpath, hwrite⟩ := exec_ofExcept_bind_eq_ok_iff.mp hwrite
      rw [chunkFilePath, WriteCall.fileId, UuidCrate.parseStr_toString] at hpath
      cases hpath
      simp [writeBytesAtomic, refusedWrite, write4, sampleCall] at hwrite

/-- The chunks of the old file can be removed. -/
theorem refusedWrite_late :
    ¬ FailsBeforeRemoval "contents" sampleHeader refusedWrite write123.entry := by
  rintro (hpath | hchunk | ⟨_, hremoves⟩)
  · exact Bool.false_ne_true
      ((logicalPathInvalid_sampleCall [4] uuidB (by decide)).symm.trans hpath)
  · exact absurd hchunk (by decide)
  · obtain ⟨_, hfault⟩ := hremoves uuidA (parseStr_fileId write123)
    simp [refusedWrite] at hfault

theorem refusedWrite_fresh :
    ∀ e ∈ index123.entries,
      UuidCrate.hyphenated.parseStr e.fileId ≠ some refusedWrite.newV4 := by
  intro e he heq
  rw [List.mem_singleton.mp he, WriteCall.entry, parseStr_fileId] at heq
  exact absurd (Option.some.inj heq) (by decide)

/-- The old content of `a`, readable before through the index in memory and through the
sealed one, is lost through both. -/
theorem overwrite_loses_old :
    ∃ error s', exec (writeLogicalFile sampleCrates.xchacha "contents" sampleHeader sampleKey
        refusedWrite) flushed123 = (.error error, s') ∧
      readOpen sampleCrates "contents" sampleHeader sampleKey flushed123 "a" = .ok [1, 2, 3] ∧
      readSealed sampleCrates "contents" sampleHeader sampleKey sampleIndexKey flushed123 "a" =
        .ok [1, 2, 3] ∧
      (∀ plain, readOpen sampleCrates "contents" sampleHeader sampleKey s' "a" ≠ .ok plain) ∧
      ∀ plain, readSealed sampleCrates "contents" sampleHeader sampleKey sampleIndexKey s' "a" ≠
        .ok plain := by
  obtain ⟨error, s', herr⟩ := refusedWrite_fails
  have hlate : LateFailure "contents" sampleHeader refusedWrite write123.entry flushed123 s' :=
    lateFailure_of_error honestRemovals_refusedWrite find_flushed123
      (refusedWrite_fresh _ (List.mem_singleton_self _)) refusedWrite_late herr
  have hcount : chunkCount write123.entry.size sampleHeader.chunkSize ≠ 0 := by decide
  have hparse := parseStr_fileId write123
  refine ⟨error, s', herr, ?_, ?_, fun plain => hlate.path_lost find_flushed123 plain, ?_⟩
  · rw [readOpen, index_flushed123]
    exact read_flushed123
  · rw [readSealed, sealedIndex_flushed123, except_ok_bind]
    exact read_flushed123
  · intro plain
    rw [readSealed, hlate.sealedIndex_eq, sealedIndex_flushed123, except_ok_bind]
    exact hlate.read_lost hcount (index_flushed123 ▸ find_flushed123)
      ⟨hcount, uuidA, hparse, hparse⟩ plain

theorem overwrite_keepsReadable_iff_refused :
    ∃ error s', exec (writeLogicalFile sampleCrates.xchacha "contents" sampleHeader sampleKey
        refusedWrite) flushed123 = (.error error, s') ∧
      (KeepsReadable sampleCrates "contents" sampleHeader sampleKey sampleIndexKey flushed123 s' ↔
        FailsBeforeRemoval "contents" sampleHeader refusedWrite write123.entry ∨
        NothingReadableLost sampleCrates "contents" sampleHeader sampleKey sampleIndexKey
          flushed123 refusedWrite write123.entry) := by
  obtain ⟨error, s', herr⟩ := refusedWrite_fails
  refine ⟨error, s', herr, overwrite_keepsReadable_iff find_flushed123
    honestRemovals_refusedWrite ?_ ?_ herr⟩
  · rw [index_flushed123]
    exact refusedWrite_fresh
  · intro index hindex
    rw [sealedIndex_flushed123] at hindex
    cases hindex
    exact refusedWrite_fresh

end Upriv.Contents
