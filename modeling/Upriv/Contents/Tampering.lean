import Upriv.Contents.Integrity
import Upriv.Contents.Saved

/-!
# A store on a tampered disk

Between two openings the files of a store can become anything, those of another store among
them.  Against ideal ciphers the store that opens then is one of those that were created, with
its keys and an index that was sealed for it, and what is read through that index was written
before that sealing: the most that tampering does is to bring an earlier state back.
-/

namespace Upriv.Contents

open FallibleM

section
variable {U : UuidCrate} {C : StoreCrates U} {faults : Upriv.Faults}
  {draws : ℕ → StoreDraws U} {contentsDir : PathBuf} {base : OpenedStore U}
  {saved : VaultIndex} {s s' : Editing U} {call : WriteCall U} {t : ContentsStore}

def writes (events : List (EditEvent U)) : List (WriteCall U) := events.filterMap EditEvent.call?

/-! ## Where the entries come from -/

/-- Every entry was there at the start or is that of a write of the run. -/
theorem EditInv.run_entries {events : List (EditEvent U)}
    (h : EditInv C contentsDir base saved s)
    (hrun : Run (editStep C faults draws contentsDir) (EditAllowed C contentsDir) s events s') :
    ∃ saved', EditInv C contentsDir base saved' s' ∧
      ∀ e ∈ s'.store.index.entries ++ saved'.entries,
        e ∈ s.store.index.entries ++ saved.entries ∨ ∃ call ∈ writes events, e = call.entry := by
  induction hrun with
  | refl => exact ⟨saved, h, fun e he => .inl he⟩
  | @tail m s' events event hrun hstep hallowed ih =>
      obtain ⟨between, hm, hentries⟩ := ih
      obtain ⟨⟨saved', h', hgained⟩, -⟩ := hm.step hstep hallowed
      refine ⟨saved', h', fun e he => ?_⟩
      rw [writes, List.filterMap_append]
      rcases hgained e he with he | ⟨call, hcall, rfl⟩
      · exact (hentries e he).imp_right fun ⟨call, hcall, he⟩ =>
          ⟨call, List.mem_append_left _ hcall, he⟩
      · refine .inr ⟨call, List.mem_append_right _ ?_, rfl⟩
        exact List.mem_filterMap.mpr ⟨event, List.mem_singleton_self _, hcall⟩

/-! ## What was sealed -/

/-- A store from its creation on: the writes that made its first entries (none, or that of
the seed) and everything that was done to it, with UUIDs that never repeat. -/
structure StoreLife (C : StoreCrates U) where
  faults : Upriv.Faults
  draws : ℕ → StoreDraws U
  contentsDir : PathBuf
  plain : IsPlain contentsDir
  start : Editing U
  new : NewlyOpened C faults draws contentsDir start
  initial : List (WriteCall U)
  initial_entries : ∀ e ∈ start.store.index.entries, ∃ call ∈ initial, e = call.entry
  events : List (EditEvent U)
  finish : Editing U
  run : Run (editStep C faults draws contentsDir) (EditAllowed C contentsDir) start events finish
  ids_nodup : ((initial ++ writes events).map (·.newV4)).Nodup

namespace StoreLife

def header (life : StoreLife C) : VaultHeader U := life.start.store.header

def history (life : StoreLife C) : List (WriteCall U) := life.initial ++ writes life.events

/-- After `before` the store had just been created or a flush was tried, which sealed this
index.  A flush that fails may have sealed it before it failed. -/
structure SealedAt (life : StoreLife C) (before after : List (EditEvent U))
    (index : VaultIndex) : Prop where
  events : life.events = before ++ after
  moment : before = [] ∨ ∃ rest, after = .flushed :: rest ∨ after = .flushFailed :: rest
  index : ∃ m, Run (editStep C life.faults life.draws life.contentsDir)
      (EditAllowed C life.contentsDir) life.start before m ∧ m.store.index = index

/-- What was sealed under the index key. -/
def IndexSealed (life : StoreLife C) (aad plain : Bytes) : Prop :=
  aad = indexAad life.header ∧ ∃ before after index, life.SealedAt before after index ∧
    encodeIndex C index = .ok plain

end StoreLife

/-- What was sealed under the keys of the passwords: the master key of each store. -/
def WrapSealed {ι : Type*} (lives : ι → StoreLife C) (aad plain : Bytes) : Prop :=
  ∃ i, aad = wrapAadBytes (lives i).header ∧ plain = (lives i).start.store.masterKey.toList

/-- The ciphers are ideal where an opening with this header and password meets them: under
the key of the password, and under the keys of the stores, the files open to what was sealed
with the same authenticated data or not at all. -/
structure OnlySealed {ι : Type*} (lives : ι → StoreLife C) (contentsDir : PathBuf)
    (password : Bytes) (header : VaultHeader U) (d : Disk) : Prop where
  wraps : ∀ salt wrapped kek plain, decodeWrap C header = .ok (salt, wrapped) →
    C.argon2id password salt header.kdf.memoryKib header.kdf.timeCost
      header.kdf.parallelism = .ok kek →
    decryptXchacha C.xchacha kek wrapped (wrapAadBytes header) = .ok plain →
      WrapSealed lives (wrapAadBytes header) plain
  indexes : ∀ i blob plain, d.files (indexPath contentsDir) = some blob →
    openIndex C (lives i).start.store.indexKey blob (indexAad header) = .ok plain →
      (lives i).IndexSealed (indexAad header) plain
  chunks : ∀ i, ∀ call ∈ (lives i).history, ∀ k blob plain,
    d.files (chunkPathOf U contentsDir call.newV4 k) = some blob →
    decryptXchacha C.xchacha (lives i).start.store.contentKey blob
      (expectedAad header call.entry k) = .ok plain →
      Sealed (lives i).header (lives i).history (expectedAad header call.entry k) plain

theorem Sealed.of_sameBoundFields {header header' : VaultHeader U}
    {history : List (WriteCall U)} {aad plain : Bytes} (hsame : SameBoundFields header header')
    (h : Sealed header' history aad plain) : Sealed header history aad plain := by
  cases h with
  | wrap other => exact .wrap other plain
  | index other => exact .index other plain
  | @chunk call k hcall hk =>
      have hchunkSize : header.chunkSize = header'.chunkSize := hsame.2.2.2.2.2.2.2.2.2
      rw [← hchunkSize] at hk ⊢
      rw [sliceAad, chunkAad, ← storeAadBytes_congr hsame]
      exact .chunk hcall hk

/-! ## Opening -/

theorem unwrapMasterKey_ok {kek : Kek} {wrapped aad : Bytes} {masterKey : MasterKey}
    (h : unwrapMasterKey C kek wrapped aad = .ok masterKey) :
    decryptXchacha C.xchacha kek wrapped aad = .ok masterKey.toList := by
  obtain ⟨plain, hplain, h⟩ := except_bind_eq_ok.mp h
  split at h
  · cases h
    exact hplain
  · cases h

section
variable {ι : Type*} {lives : ι → StoreLife C} {password : Bytes} {header : VaultHeader U}
  {masterKey : MasterKey} {contentKey : ContentKey} {indexKey : IndexKey} {index : VaultIndex}
  {d d' : Disk}

/-- The keys that come out are those of a store that was created. -/
theorem OnlySealed.exists_life (h : OnlySealed lives contentsDir password header d)
    (hunlocks : Unlocks C header password masterKey contentKey indexKey) :
    ∃ i, SameBoundFields header (lives i).header ∧
      masterKey = (lives i).start.store.masterKey ∧
      contentKey = (lives i).start.store.contentKey ∧
      indexKey = (lives i).start.store.indexKey := by
  obtain ⟨salt, wrapped, kek, hdecode, hargon, hunwrap⟩ := hunlocks.unwraps
  obtain ⟨i, haad, hmaster⟩ :=
    h.wraps salt wrapped kek _ hdecode hargon (unwrapMasterKey_ok hunwrap)
  obtain rfl := Vector.toList_inj.mp hmaster
  obtain ⟨_, hcreated⟩ := ((lives i).new.editInv (lives i).plain).unlocks
  have hkeys : (contentKey, indexKey) =
      ((lives i).start.store.contentKey, (lives i).start.store.indexKey) :=
    Except.ok.inj (hunlocks.derives.symm.trans hcreated.derives)
  obtain ⟨rfl, rfl⟩ := Prod.mk.inj hkeys
  exact ⟨i, (storeAadBytes_inj haad).2.2, rfl, rfl, rfl⟩

/-- The index that comes out was sealed for the store. -/
theorem OnlySealed.exists_sealedAt {i : ι}
    (h : OnlySealed lives contentsDir password header d)
    (hindex : IndexStored C contentsDir header (lives i).start.store.indexKey index d) :
    ∃ before after, (lives i).SealedAt before after index := by
  obtain ⟨blob, plain, hblob, hopen, hdecode⟩ := hindex.file
  obtain ⟨-, before, after, found, hsealed, hencode⟩ := h.indexes i blob plain hblob hopen
  obtain rfl : found = index :=
    Except.ok.inj ((decodeIndex_encodeIndex hencode).symm.trans hdecode)
  exact ⟨before, after, hsealed⟩

/-- The entries of a sealed index are those of earlier writes. -/
theorem StoreLife.SealedAt.exists_call {life : StoreLife C} {before after : List (EditEvent U)}
    (h : life.SealedAt before after index) {entry : VaultIndexEntry}
    (hentry : entry ∈ index.entries) :
    ∃ call ∈ life.initial ++ writes before, entry = call.entry := by
  obtain ⟨m, hrun, rfl⟩ := h.index
  obtain ⟨saved, -, hentries⟩ := (life.new.editInv life.plain).run_entries hrun
  rcases hentries entry (List.mem_append_left _ hentry) with hold | ⟨call, hcall, rfl⟩
  · obtain ⟨call, hcall, rfl⟩ :=
      life.initial_entries entry ((List.mem_append.mp hold).elim id id)
    exact ⟨call, List.mem_append_left _ hcall, rfl⟩
  · exact ⟨call, List.mem_append_right _ hcall, rfl⟩

theorem StoreLife.SealedAt.mem_history {life : StoreLife C} {before after : List (EditEvent U)}
    (h : life.SealedAt before after index) (hcall : call ∈ life.initial ++ writes before) :
    call ∈ life.history := by
  rw [StoreLife.history, h.events, writes, List.filterMap_append, ← List.append_assoc]
  exact List.mem_append_left _ hcall

/-- What is read for the entry of a write is what was written. -/
theorem OnlySealed.read_eq {i : ι} (h : OnlySealed lives contentsDir password header d)
    (hbound : SameBoundFields header (lives i).header) (hcall : call ∈ (lives i).history)
    {path : String} {plain : Bytes} (hfind : index.find path = some call.entry)
    (hread : readLogicalFile C.xchacha contentsDir header (lives i).start.store.contentKey
      (ContentsStore.read ⟨index, d.files⟩) index path = .ok plain) :
    plain = call.plaintext := by
  refine read_eq_written (lives i).ids_nodup ?_ hcall hfind hread
  intro u k blob plain hparse hblob hdecrypt
  obtain rfl := Option.some.inj ((parseStr_fileId call).symm.trans hparse)
  have hfile := ContentsStore.read_eq_ok.mp hblob
  exact (h.chunks i call hcall k blob plain hfile hdecrypt).of_sameBoundFields hbound

end

end

/-! ## A sample: an earlier state is brought back -/

/-- The header, the index and the chunk of the first sample write. -/
def restored (d : Disk) : Disk :=
  { d with
    files := fun path =>
      if path ∈ [headerPath "contents", indexPath "contents",
        chunkPathOf UuidCrate.hyphenated "contents" uuidA 0] then d.files path
      else none }

theorem files_restored {d : Disk} {path : PathBuf}
    (h : path ∈ [headerPath "contents", indexPath "contents",
      chunkPathOf UuidCrate.hyphenated "contents" uuidA 0]) :
    (restored d).files path = d.files path := if_pos h

theorem eq_of_restored {d : Disk} {u : UuidCrate.hyphenated.Uuid} {k : UInt32} {blob : Bytes}
    (h : (restored d).files (chunkPathOf UuidCrate.hyphenated "contents" u k) = some blob) :
    u = uuidA ∧ k = 0 := by
  rw [restored] at h
  dsimp only at h
  split at h
  · rename_i hmem
    simp only [List.mem_cons, List.not_mem_nil, or_false] at hmem
    rcases hmem with heq | heq | heq
    · exact absurd heq (chunkPathOf_ne_headerPath u k _)
    · exact absurd heq (chunkPathOf_ne_indexPath u k _)
    · exact chunkPathOf_inj heq
  · cases h

/-- The sample store is written, flushed, overwritten and flushed. -/
def rewriting : List (EditEvent UuidCrate.hyphenated) :=
  [.wrote write123, .flushed, .wrote write4, .flushed]

/-- The sample store was rewritten; `d` and `index` are of the first flush. -/
structure Rewritten (life : StoreLife everyCrates) (d : Disk) (index : VaultIndex) : Prop where
  events : life.events = rewriting
  unwraps : Unwraps everyCrates life.header [1] life.start.store.masterKey
  header : HeaderStored everyCrates "contents" life.header d
  stored : IndexStored everyCrates "contents" life.header life.start.store.indexKey index d
  sealed : ∃ blob plain nonce, d.files (indexPath "contents") = some blob ∧
    encodeIndex everyCrates index = .ok plain ∧
    sealIndex everyCrates nonce life.start.store.indexKey plain (indexAad life.header) = .ok blob
  sealedAt : life.SealedAt [.wrote write123] [.flushed, .wrote write4, .flushed] index
  chunk : SliceStored everyCrates.xchacha "contents" life.header life.start.store.contentKey
    write123 ⟨index, d.files⟩ 0
  find : index.find "a" = some write123.entry
  read : readOpen everyCrates "contents" life.header life.start.store.contentKey
    ⟨index, d.files⟩ "a" = .ok [1, 2, 3]
  finish : readOpen everyCrates "contents" life.header life.start.store.contentKey
    life.finish.contents "a" = .ok [4]

theorem ceilDiv_write123 {header : VaultHeader UuidCrate.hyphenated}
    (h : header.chunkSize = CHUNK_SIZE) :
    write123.plaintext.length ⌈/⌉ header.chunkSize.toNat = 1 := by
  rw [h]
  change 3 ⌈/⌉ 262144 = 1
  rw [Nat.ceilDiv_eq_add_pred_div]

theorem exists_rewritten : ∃ life d index, Rewritten life d index := by
  obtain ⟨s, hnew, hempty, hunwraps, hs⟩ := exists_newStore
  have hwritable : Writable everyCrates "contents" s write123 := by
    refine hs.writable (fun _ => rfl) (by decide) fun e he => ?_
    rw [hempty] at he
    exact absurd he List.not_mem_nil
  have hpath : logicalPathInvalid write123.logicalPath = false :=
    logicalPathInvalid_sampleCall _ _ _
  have hpath' : logicalPathInvalid write4.logicalPath = false :=
    logicalPathInvalid_sampleCall _ _ _
  obtain ⟨t, hwrite, hm⟩ := hs.exists_wrote hpath (fun _ => rfl) hwritable
  have hentries : t.index.entries = [write123.entry] := by
    rw [(writeLogicalFile_ok hwrite).2.1, Editing.contents, hempty]
    rfl
  have hcount := ceilDiv_write123 (chunkSize_of_valid hs.inv.header.valid)
  obtain ⟨d, hflush, hm'⟩ := hm.exists_flushed
  have hwritable' : Writable everyCrates "contents" { s.setContents t with disk := d } write4 := by
    refine hm'.writable (fun _ => rfl) (by decide) fun e he => ?_
    have hentry : e ∈ t.index.entries := (List.mem_append.mp he).elim id id
    rw [hentries, List.mem_singleton] at hentry
    rw [hentry, WriteCall.entry, parseStr_fileId]
    exact fun heq => absurd (Option.some.inj heq) (by decide)
  obtain ⟨t', hwrite', hm''⟩ := hm'.exists_wrote hpath' (fun _ => rfl) hwritable'
  obtain ⟨d', hflush', hm'''⟩ := hm''.exists_flushed
  let life : StoreLife everyCrates :=
    { faults := noFaults
      draws := sampleDraws
      contentsDir := "contents"
      plain := isPlain_sample
      start := s
      new := hnew
      initial := []
      initial_entries := fun e he => by
        rw [hempty] at he
        exact absurd he List.not_mem_nil
      events := rewriting
      finish := { (Editing.mk (s.setContents t).store d).setContents t' with disk := d' }
      run := .cons (editStep_wrote hwrite) hwritable (.cons (editStep_flushed hflush) trivial
        (.cons (editStep_wrote hwrite') hwritable'
          (.cons (editStep_flushed hflush') trivial (.refl _))))
      ids_nodup := by decide }
  have hsealed := saveSealedIndex_sealed hflush
  have hkept (u : UuidCrate.hyphenated.Uuid) (k : UInt32) :
      d.files (chunkPathOf UuidCrate.hyphenated "contents" u k) =
        t.files (chunkPathOf UuidCrate.hyphenated "contents" u k) :=
    (saveSealedIndex_ok hflush).2.2 _ (chunkPathOf_ne_indexPath u k _)
  have hat : life.SealedAt [.wrote write123] [.flushed, .wrote write4, .flushed] t.index :=
    ⟨rfl, .inr ⟨_, .inl rfl⟩, _, .cons (editStep_wrote hwrite) hwritable (.refl _), rfl⟩
  refine ⟨life, d, t.index, rfl, hunwraps, hm'.inv.header, hm'.inv.index, hsealed, hat, ?_, ?_,
    ?_, ?_⟩
  · obtain ⟨blob, hblob, hfile⟩ := (writeLogicalFile_ok hwrite).2.2 (by omega) 0 (by omega)
    exact ⟨blob, hblob, (hkept _ _).trans hfile⟩
  · rw [VaultIndex.find, hentries]
    decide
  · refine Eq.trans (readLogicalFile_congr rfl fun e u i _ _ _ => ?_)
      (read_written (by omega) hwrite)
    simp only [ContentsStore.read, hkept]
  · have hwritten : (Editing.view everyCrates "contents"
        ((Editing.mk (s.setContents t).store d).setContents t')).live write4.logicalPath =
          some write4.plaintext := by
      rw [(hm'.inv.write_ok hwritable' hwrite').2]
      simp only [SavedMap.apply, Function.update_self]
    have hlive : (life.finish.view everyCrates "contents").live write4.logicalPath =
        some write4.plaintext :=
      (congrArg (·.live write4.logicalPath) (hm''.inv.flush hflush').2).trans hwritten
    exact toOption_eq_some.mp hlive

section
variable {life : StoreLife everyCrates} {d : Disk} {index : VaultIndex}

theorem files_chunk_restored (d : Disk) :
    (restored d).files (chunkPathOf UuidCrate.hyphenated "contents" write123.newV4 (.ofNat 0)) =
      d.files (chunkPathOf UuidCrate.hyphenated "contents" write123.newV4 (.ofNat 0)) :=
  files_restored (List.mem_cons_of_mem _ (List.mem_cons_of_mem _ List.mem_cons_self))

/-- Every file of the earlier state was sealed in the life of the store. -/
theorem Rewritten.onlySealed (h : Rewritten life d index) :
    OnlySealed (fun _ : Unit => life) "contents" [1] life.header (restored d) := by
  refine ⟨fun salt wrapped kek plain hdecode hargon hplain => ?_,
    fun _ blob plain hfound hplain => ?_, fun _ call hcall k found plain hfound hplain => ?_⟩
  · obtain ⟨salt', wrapped', kek', hdecode', hargon', hunwrap⟩ := h.unwraps
    obtain ⟨rfl, rfl⟩ := Prod.mk.inj (Except.ok.inj (hdecode.symm.trans hdecode'))
    obtain rfl := Except.ok.inj (hargon.symm.trans hargon')
    exact ⟨(), rfl, Except.ok.inj (hplain.symm.trans (unwrapMasterKey_ok hunwrap))⟩
  · obtain ⟨sealed, encoded, nonce, hblob, hencode, hseal⟩ := h.sealed
    rw [files_restored (by simp)] at hfound
    obtain rfl := Option.some.inj (hblob.symm.trans hfound)
    obtain rfl := Except.ok.inj ((openIndex_sealIndex hseal).symm.trans hplain)
    exact ⟨rfl, _, _, index, h.sealedAt, hencode⟩
  · obtain ⟨blob, hblob, hfile⟩ := h.chunk
    obtain ⟨hid, rfl⟩ := eq_of_restored hfound
    have hmem : write123 ∈ life.history :=
      h.sealedAt.mem_history (by simp [writes, EditEvent.call?])
    obtain rfl : call = write123 := List.inj_on_of_nodup_map life.ids_nodup hcall hmem hid
    obtain rfl := Option.some.inj (((files_chunk_restored d).trans hfile).symm.trans hfound)
    have haad : expectedAad life.header write123.entry 0 = sliceAad life.header write123
        (slice life.header.chunkSize.toNat 0 write123.plaintext) 0 :=
      expectedAad_eq_sliceAad (k := 0) (by decide)
    rw [haad] at hplain ⊢
    obtain rfl := Except.ok.inj ((decryptXchacha_encryptXchacha hblob).symm.trans hplain)
    have hcount := ceilDiv_write123 (chunkSize_of_valid h.header.valid)
    exact .chunk hmem (by omega)

theorem Rewritten.read_restored (h : Rewritten life d index) :
    readOpen everyCrates "contents" life.header life.start.store.contentKey
      ⟨index, (restored d).files⟩ "a" = .ok [1, 2, 3] := by
  refine Eq.trans (readLogicalFile_congr rfl fun entry u k hentry hparse hk => ?_) h.read
  obtain rfl := Option.some.inj (h.find.symm.trans hentry)
  obtain rfl := Option.some.inj ((parseStr_fileId write123).symm.trans hparse)
  have hcount : (chunkCount write123.entry.size life.header.chunkSize).toNat = 1 := by
    rw [chunkSize_of_valid h.header.valid]
    decide
  obtain rfl : k = 0 := by omega
  simp only [ContentsStore.read, files_chunk_restored]

end

end Upriv.Contents
