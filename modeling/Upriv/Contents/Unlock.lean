import Upriv.Contents.RoundTrip
import Upriv.Contents.StoreFrame

/-!
# What a password opens

A store opens when its header unlocks with the password and its index is sealed with the
key that comes out.  Both parts are facts about files: creating a store and sealing an
index establish them, and what leaves the files alone keeps them.
-/

namespace Upriv.Contents

open FallibleM

variable {U : UuidCrate} {C : StoreCrates U} {faults : Upriv.Faults}
  {draws : ℕ → StoreDraws U} {contentsDir : PathBuf} {header : VaultHeader U}
  {password : Bytes} {masterKey : MasterKey} {contentKey : ContentKey} {indexKey : IndexKey}
  {index : VaultIndex} {d d' : Disk}

/-- The key that Argon2id gives for the password opens the wrapped key of the header to this
master key. -/
def Unwraps (C : StoreCrates U) (header : VaultHeader U) (password : Bytes)
    (masterKey : MasterKey) : Prop :=
  ∃ salt wrapped kek, decodeWrap C header = .ok (salt, wrapped) ∧
    C.argon2id password salt header.kdf.memoryKib header.kdf.timeCost
      header.kdf.parallelism = .ok kek ∧
    unwrapMasterKey C kek wrapped (wrapAadBytes header) = .ok masterKey

/-- The password unwraps the master key of the header, and these are its layer keys. -/
structure Unlocks (C : StoreCrates U) (header : VaultHeader U) (password : Bytes)
    (masterKey : MasterKey) (contentKey : ContentKey) (indexKey : IndexKey) : Prop where
  unwraps : Unwraps C header password masterKey
  derives : deriveLayerKeys C masterKey = .ok (contentKey, indexKey)

/-- The attempt opens the wrapped key to the master key or not at all.  A wrong password
could give a key under which the stored blob opens to something else; that would be a
forgery. -/
def NoOtherKey (C : StoreCrates U) (header : VaultHeader U) (masterKey : MasterKey)
    (attempt : Bytes) : Prop :=
  ∀ found, Unwraps C header attempt found → found = masterKey

theorem Unwraps.noOtherKey (h : Unwraps C header password masterKey) :
    NoOtherKey C header masterKey password := by
  intro found h'
  obtain ⟨salt, wrapped, kek, hdecode, hargon, hunwrap⟩ := h
  obtain ⟨salt', wrapped', kek', hdecode', hargon', hunwrap'⟩ := h'
  obtain ⟨rfl, rfl⟩ := Prod.mk.inj (Except.ok.inj (hdecode.symm.trans hdecode'))
  obtain rfl := Except.ok.inj (hargon.symm.trans hargon')
  exact Except.ok.inj (hunwrap'.symm.trans hunwrap)

/-- The header file holds this header. -/
structure HeaderStored (C : StoreCrates U) (contentsDir : PathBuf) (header : VaultHeader U)
    (d : Disk) : Prop where
  file : ∃ bytes text, d.files (headerPath contentsDir) = some bytes ∧
    decodeUtf8 bytes = some text ∧ C.headerJson.fromStr text = .ok header
  valid : validateHeader (headerPath contentsDir) header = .ok ()

/-- The index file holds this index, sealed with the key under the header. -/
structure IndexStored (C : StoreCrates U) (contentsDir : PathBuf) (header : VaultHeader U)
    (indexKey : IndexKey) (index : VaultIndex) (d : Disk) : Prop where
  file : ∃ blob plain, d.files (indexPath contentsDir) = some blob ∧
    openIndex C indexKey blob (indexAad header) = .ok plain ∧ decodeIndex C plain = .ok index
  version : index.formatVersion = FORMAT_VERSION

/-- The store is what the files hold under the password. -/
structure StoredAt (C : StoreCrates U) (contentsDir : PathBuf) (password : Bytes)
    (store : OpenedStore U) (d : Disk) : Prop where
  unlocks : Unlocks C store.header password store.masterKey store.contentKey store.indexKey
  header : HeaderStored C contentsDir store.header d
  index : IndexStored C contentsDir store.header store.indexKey store.index d

theorem HeaderStored.of_sameAt (h : HeaderStored C contentsDir header d)
    (hsame : d'.files (headerPath contentsDir) = d.files (headerPath contentsDir)) :
    HeaderStored C contentsDir header d' where
  file := hsame ▸ h.file
  valid := h.valid

theorem HeaderStored.unique {header' : VaultHeader U} (h : HeaderStored C contentsDir header d)
    (h' : HeaderStored C contentsDir header' d) : header' = header := by
  obtain ⟨bytes, text, hfile, htext, hjson⟩ := h.file
  obtain ⟨bytes', text', hfile', htext', hjson'⟩ := h'.file
  obtain rfl := Option.some.inj (hfile.symm.trans hfile')
  obtain rfl := Option.some.inj (htext.symm.trans htext')
  exact (Except.ok.inj (hjson.symm.trans hjson')).symm

theorem IndexStored.of_sameAt (h : IndexStored C contentsDir header indexKey index d)
    (hsame : d'.files (indexPath contentsDir) = d.files (indexPath contentsDir)) :
    IndexStored C contentsDir header indexKey index d' where
  file := hsame ▸ h.file
  version := h.version

/-! ## Opening -/

theorem loadHeader_ok (h : (loadHeader C faults contentsDir).exec d = (.ok header, d')) :
    HeaderStored C contentsDir header d := by
  rw [loadHeader, exec_bind, exec_get] at h
  dsimp only at h
  rw [exec_ensure_bind_eq_ok_iff] at h
  obtain ⟨-, h⟩ := h
  obtain ⟨text, m, hread, h⟩ := exec_bind_eq_ok_iff.mp h
  obtain ⟨bytes, hfile, htext⟩ := readToString_ok faults hread
  split at h
  · cases h
  · rename_i parsed hparsed
    obtain ⟨_, hvalid, h⟩ := exec_ofExcept_bind_eq_ok_iff.mp h
    cases h
    exact ⟨⟨bytes, text, hfile, htext, hparsed⟩, hvalid⟩

theorem exec_loadHeader (h : HeaderStored C contentsDir header d) :
    ∃ d', (loadHeader C noFaults contentsDir).exec d = (.ok header, d') := by
  obtain ⟨bytes, text, hfile, htext, hparsed⟩ := h.file
  have hisFile : d.isFile (headerPath contentsDir) = true := by
    rw [Disk.isFile, hfile]
    rfl
  refine ⟨{ d with calls := d.calls + 1 }, ?_⟩
  rw [loadHeader, exec_bind, exec_get]
  dsimp only
  rw [exec_ensure_bind_eq_ok_iff]
  refine ⟨hisFile, ?_⟩
  rw [exec_bind_of_ok (exec_readToString noFaults rfl hfile htext), hparsed]
  dsimp only
  rw [h.valid]
  rfl

theorem unwrapHeaderMaster_ok
    (h : (unwrapHeaderMaster C faults header password).exec d = (.ok masterKey, d')) :
    Unwraps C header password masterKey := by
  obtain ⟨⟨salt, wrapped⟩, hwrap, h⟩ := exec_ofExcept_bind_eq_ok_iff.mp h
  obtain ⟨kek, m, hkek, h⟩ := exec_bind_eq_ok_iff.mp h
  rw [exec_ofExcept, Prod.mk.injEq] at h
  rw [deriveKek, exec_ensure_bind_eq_ok_iff] at hkek
  obtain ⟨-, hkek⟩ := hkek
  obtain ⟨_, m', -, hkek⟩ := exec_bind_eq_ok_iff.mp hkek
  rw [exec_ofExcept, Prod.mk.injEq] at hkek
  refine ⟨salt, wrapped, kek, hwrap, ?_, h.1⟩
  cases hargon : C.argon2id password salt header.kdf.memoryKib header.kdf.timeCost
      header.kdf.parallelism with
  | error error =>
      rw [hargon] at hkek
      cases hkek.1
  | ok found =>
      rw [hargon] at hkek
      rw [Except.ok.inj hkek.1]

theorem kdfParamsInBounds_of_valid {path : PathBuf} (h : validateHeader path header = .ok ()) :
    kdfParamsInBounds header.kdf.memoryKib header.kdf.timeCost header.kdf.parallelism = true := by
  unfold validateHeader at h
  split at h
  · cases h
  split at h
  · cases h
  split at h
  · cases h
  · rename_i hbounds
    rwa [Bool.not_eq_true', Bool.not_eq_false] at hbounds

/-- With the memory for Argon2id, unlocking is pure. -/
theorem exec_unwrapHeaderMaster {path : PathBuf} (hvalid : validateHeader path header = .ok ())
    (h : Unlocks C header password masterKey contentKey indexKey) (d : Disk) :
    ∃ d', (unwrapHeaderMaster C noFaults header password).exec d = (.ok masterKey, d') ∧
      SameDisk d d' := by
  obtain ⟨salt, wrapped, kek, hwrap, hargon, hunwrap⟩ := h.unwraps
  let d₁ : Disk := { d with calls := d.calls + 1 }
  have hkek : (deriveKek C noFaults password salt header.kdf.memoryKib header.kdf.timeCost
      header.kdf.parallelism).exec d = (.ok kek, d₁) := by
    rw [deriveKek, exec_ensure_bind_eq_ok_iff]
    refine ⟨kdfParamsInBounds_of_valid hvalid, ?_⟩
    have halloc : (tryAllocArgon2Blocks noFaults).exec d = (.ok (), d₁) := rfl
    rw [exec_bind_of_ok halloc, hargon]
    rfl
  refine ⟨d₁, ?_, rfl, rfl⟩
  rw [unwrapHeaderMaster, exec_ofExcept_bind, hwrap]
  dsimp only
  rw [exec_bind_of_ok hkek, exec_ofExcept, hunwrap]

theorem loadSealedIndex_ok
    (h : (loadSealedIndex C faults contentsDir header indexKey).exec d = (.ok index, d')) :
    IndexStored C contentsDir header indexKey index d := by
  rw [loadSealedIndex, exec_bind, exec_get] at h
  dsimp only at h
  rw [exec_ensure_bind_eq_ok_iff] at h
  obtain ⟨-, h⟩ := h
  obtain ⟨blob, m, hread, h⟩ := exec_bind_eq_ok_iff.mp h
  obtain ⟨plain, hopen, h⟩ := exec_ofExcept_bind_eq_ok_iff.mp h
  obtain ⟨found, hdecode, h⟩ := exec_ofExcept_bind_eq_ok_iff.mp h
  rw [exec_ensure_bind_eq_ok_iff] at h
  obtain ⟨hversion, h⟩ := h
  cases h
  exact ⟨⟨blob, plain, readFile_ok hread, hopen, hdecode⟩, hversion⟩

theorem exec_loadSealedIndex (h : IndexStored C contentsDir header indexKey index d) :
    ∃ d', (loadSealedIndex C noFaults contentsDir header indexKey).exec d = (.ok index, d') := by
  obtain ⟨blob, plain, hfile, hopen, hdecode⟩ := h.file
  have hisFile : d.isFile (indexPath contentsDir) = true := by
    rw [Disk.isFile, hfile]
    rfl
  refine ⟨{ d with calls := d.calls + 1 }, ?_⟩
  rw [loadSealedIndex, exec_bind, exec_get]
  dsimp only
  rw [exec_ensure_bind_eq_ok_iff]
  refine ⟨hisFile, ?_⟩
  have hread : (readFile noFaults (indexPath contentsDir)).exec d =
      (.ok blob, { d with calls := d.calls + 1 }) := exec_readFile_undisturbed hfile
  rw [exec_bind_of_ok hread, exec_ofExcept_bind, hopen]
  dsimp only
  rw [exec_ofExcept_bind, hdecode]
  dsimp only
  rw [exec_ensure_bind_eq_ok_iff]
  exact ⟨h.version, rfl⟩

/-- What an opened store says about the files and the password. -/
theorem openStore_ok {opened : OpenedStore U}
    (h : (openStore C faults contentsDir password).exec d = (.ok opened, d')) :
    StoredAt C contentsDir password opened d := by
  obtain ⟨header, m₁, hheader, h⟩ := exec_bind_eq_ok_iff.mp h
  obtain ⟨masterKey, m₂, hmaster, h⟩ := exec_bind_eq_ok_iff.mp h
  obtain ⟨⟨contentKey, indexKey⟩, hkeys, h⟩ := exec_ofExcept_bind_eq_ok_iff.mp h
  obtain ⟨index, m₃, hindex, h⟩ := exec_bind_eq_ok_iff.mp h
  cases h
  have hsame₁ := (sameDisk_loadHeader contentsDir).exec_eq hheader
  have hsame₂ := (sameDisk_unwrapHeaderMaster header password).exec_eq hmaster
  have hfiles : d.files (indexPath contentsDir) = m₂.files (indexPath contentsDir) :=
    ((congrFun hsame₂.1 _).trans (congrFun hsame₁.1 _)).symm
  exact ⟨⟨unwrapHeaderMaster_ok hmaster, hkeys⟩, loadHeader_ok hheader,
    (loadSealedIndex_ok hindex).of_sameAt hfiles⟩

/-- Undisturbed, a store opens with every password that unlocks its header. -/
theorem exec_openStore (hunlocks : Unlocks C header password masterKey contentKey indexKey)
    (hheader : HeaderStored C contentsDir header d)
    (hindex : IndexStored C contentsDir header indexKey index d) :
    ∃ d', (openStore C noFaults contentsDir password).exec d =
      (.ok ⟨header, masterKey, contentKey, indexKey, index⟩, d') := by
  obtain ⟨m₁, hload⟩ := exec_loadHeader hheader
  have hsame₁ := (sameDisk_loadHeader contentsDir).exec_eq hload
  obtain ⟨m₂, hmaster, hsame₂⟩ := exec_unwrapHeaderMaster hheader.valid hunlocks m₁
  have hfiles : m₂.files (indexPath contentsDir) = d.files (indexPath contentsDir) :=
    (congrFun hsame₂.1 _).trans (congrFun hsame₁.1 _)
  obtain ⟨m₃, hsealed⟩ := exec_loadSealedIndex (hindex.of_sameAt hfiles)
  refine ⟨m₃, ?_⟩
  rw [openStore, exec_bind_of_ok hload, exec_bind_of_ok hmaster, exec_ofExcept_bind,
    hunlocks.derives]
  dsimp only
  rw [exec_bind_of_ok hsealed]
  rfl

/-! ## Sealing an index -/

theorem openIndex_sealIndex {nonce : Vector UInt8 AES_SIV_NONCE_LEN} {plain aad blob : Bytes}
    (h : sealIndex C nonce indexKey plain aad = .ok blob) :
    openIndex C indexKey blob aad = .ok plain := by
  unfold sealIndex at h
  split at h
  · cases h
  · rename_i haad
    split at h
    · cases h
    · rename_i ciphertext hencrypt
      cases h
      have hlength := C.aesSiv.length_encrypt _ _ _ _ _ hencrypt
      have hnonce : nonce.toList.length = AES_SIV_NONCE_LEN := by simp
      have hlong : ¬ (nonce.toList ++ ciphertext).length ≤ AES_SIV_NONCE_LEN := by
        rw [List.length_append]
        omega
      rw [openIndex, if_neg haad, if_neg hlong, List.splitAt_eq]
      dsimp only
      rw [List.take_left' hnonce, List.drop_left' hnonce,
        C.aesSiv.decrypt_encrypt _ _ _ _ _ hencrypt]

theorem decodeIndex_encodeIndex {plain : Bytes} (h : encodeIndex C index = .ok plain) :
    decodeIndex C plain = .ok index := by
  unfold encodeIndex at h
  split at h
  · cases h
  · rename_i text htext
    cases h
    rw [decodeIndex, decodeUtf8_utf8]
    dsimp only
    rw [C.indexJson.fromStr_toString _ _ htext]

/-- What is in the index file after a flush. -/
theorem saveSealedIndex_sealed
    (h : (saveSealedIndex C faults draws contentsDir header indexKey index).exec d =
      (.ok (), d')) :
    ∃ blob plain nonce, d'.files (indexPath contentsDir) = some blob ∧
      encodeIndex C index = .ok plain ∧
      sealIndex C nonce indexKey plain (indexAad header) = .ok blob := by
  obtain ⟨_, m, -, h⟩ := exec_bind_eq_ok_iff.mp h
  obtain ⟨plain, hplain, h⟩ := exec_ofExcept_bind_eq_ok_iff.mp h
  rw [exec_bind, exec_get] at h
  dsimp only at h
  obtain ⟨blob, hsealed, h⟩ := exec_ofExcept_bind_eq_ok_iff.mp h
  obtain ⟨hfiles, -, -⟩ := Upriv.writeBytesAtomic_ok faults (isPlain_indexDir contentsDir)
    isName_INDEX_FILE_NAME h
  refine ⟨blob, plain, _, ?_, hplain, hsealed⟩
  rw [hfiles]
  exact Function.update_self _ _ _

/-- What was sealed is what the index file holds. -/
theorem indexStored_saveSealedIndex (hversion : index.formatVersion = FORMAT_VERSION)
    (h : (saveSealedIndex C faults draws contentsDir header indexKey index).exec d =
      (.ok (), d')) : IndexStored C contentsDir header indexKey index d' := by
  obtain ⟨blob, plain, nonce, hblob, hplain, hsealed⟩ := saveSealedIndex_sealed h
  exact ⟨⟨blob, plain, hblob, openIndex_sealIndex hsealed, decodeIndex_encodeIndex hplain⟩,
    hversion⟩

/-- An index that is not sealed leaves the files. -/
theorem files_saveSealedIndex_error {error : UprivError}
    (h : (saveSealedIndex C faults draws contentsDir header indexKey index).exec d =
      (.error error, d')) : d'.files = d.files := by
  rw [saveSealedIndex, exec_bind] at h
  have hmake := preserves_createDirAll faults (joinPath contentsDir INDEX_DIR_NAME) d
  rcases hmade : (Upriv.createDirAll faults (joinPath contentsDir INDEX_DIR_NAME)).exec d
    with ⟨_ | _, m⟩
  · rw [hmade] at h hmake
    cases h
    exact hmake.1
  · rw [hmade] at h hmake
    dsimp only at h
    rw [exec_ofExcept_bind] at h
    split at h
    · rw [exec_bind, exec_get] at h
      dsimp only at h
      rw [exec_ofExcept_bind] at h
      split at h
      · rcases files_writeBytesAtomic faults h with ⟨hok, -⟩ | hsame
        · cases hok
        · exact hsame.trans hmake.1
      · cases h
        exact hmake.1
    · cases h
      exact hmake.1

/-- Whatever the outcome, the index file is the old one or holds the new index. -/
theorem keeps_saveSealedIndex :
    Preserves (Keeps (IndexStored C contentsDir header indexKey index))
      (saveSealedIndex C faults draws contentsDir header indexKey index) := by
  intro d hstored
  rcases hrun : (saveSealedIndex C faults draws contentsDir header indexKey index).exec d
    with ⟨error | _, d'⟩
  · exact hstored.of_sameAt (congrFun (files_saveSealedIndex_error hrun) _)
  · exact indexStored_saveSealedIndex hstored.version hrun

/-! ## Creating a store -/

theorem unwrapMasterKey_wrapMasterKey {nonce : XNonce} {kek : Kek} {aad wrapped : Bytes}
    (h : wrapMasterKey C nonce kek masterKey aad = .ok wrapped) :
    unwrapMasterKey C kek wrapped aad = .ok masterKey := by
  have hplain : decryptXchacha C.xchacha kek wrapped aad = .ok masterKey.toList :=
    decryptXchacha_encryptXchacha h
  have hlength : masterKey.toList.length = MASTER_KEY_LEN := by simp
  rw [unwrapMasterKey, hplain, except_ok_bind, dif_pos hlength]
  rfl

/-- A password that opens no other master key opens no other store. -/
theorem StoredAt.unique {store store' : OpenedStore U} {attempt : Bytes}
    (h : StoredAt C contentsDir password store d)
    (hattempt : NoOtherKey C store.header store.masterKey attempt)
    (h' : StoredAt C contentsDir attempt store' d) : store' = store := by
  obtain ⟨header, masterKey, contentKey, indexKey, index⟩ := store
  obtain ⟨header', masterKey', contentKey', indexKey', index'⟩ := store'
  obtain rfl : header' = header := h.header.unique h'.header
  obtain rfl : masterKey' = masterKey := hattempt masterKey' h'.unlocks.unwraps
  have hkeys : (contentKey, indexKey) = (contentKey', indexKey') :=
    Except.ok.inj (h.unlocks.derives.symm.trans h'.unlocks.derives)
  obtain ⟨rfl, rfl⟩ := Prod.mk.inj hkeys
  obtain ⟨blob, plain, hblob, hopen, hdecode⟩ := h.index.file
  obtain ⟨blob', plain', hblob', hopen', hdecode'⟩ := h'.index.file
  obtain rfl := Option.some.inj (hblob.symm.trans hblob')
  obtain rfl := Except.ok.inj (hopen.symm.trans hopen')
  obtain rfl := Except.ok.inj (hdecode.symm.trans hdecode')
  rfl

/-- The keys of a new header are those that its password gives. -/
theorem createHeader_ok {preset : KdfUnlockPreset} {draw : StoreDraws U}
    (hderives : deriveLayerKeys C draw.masterKey = .ok (contentKey, indexKey))
    (h : (createHeader C faults password preset draw).exec d = (.ok header, d')) :
    Unlocks C header password draw.masterKey contentKey indexKey ∧
      ∀ path, validateHeader path header = .ok () := by
  obtain ⟨kek, m, hkek, h⟩ := exec_bind_eq_ok_iff.mp h
  obtain ⟨wrapped, hwrapped, h⟩ := exec_ofExcept_bind_eq_ok_iff.mp h
  cases h
  rw [deriveKek, exec_ensure_bind_eq_ok_iff] at hkek
  obtain ⟨hbounds, hkek⟩ := hkek
  obtain ⟨_, m', -, hkek⟩ := exec_bind_eq_ok_iff.mp hkek
  rw [exec_ofExcept, Prod.mk.injEq] at hkek
  have hargon : C.argon2id password draw.salt.toList preset.memoryKib preset.timeCost
      preset.parallelism = .ok kek := by
    cases hrun : C.argon2id password draw.salt.toList preset.memoryKib preset.timeCost
        preset.parallelism with
    | error error =>
        rw [unwrappedHeader, hrun] at hkek
        cases hkek.1
    | ok found =>
        rw [unwrappedHeader, hrun] at hkek
        rw [Except.ok.inj hkek.1]
  have hdecode : decodeWrap C { unwrappedHeader C preset draw with
      wrappedMasterKeyB64 := C.base64Encode wrapped } = .ok (draw.salt.toList, wrapped) := by
    have hlength : draw.salt.toList.length = SALT_LEN := by simp
    simp only [decodeWrap, unwrappedHeader, C.base64Decode_encode, hlength, ne_eq,
      not_true_eq_false, ↓reduceIte]
  refine ⟨⟨⟨draw.salt.toList, wrapped, kek, hdecode, hargon, ?_⟩, hderives⟩, ?_⟩
  · exact unwrapMasterKey_wrapMasterKey hwrapped
  · intro path
    have hbounds : kdfParamsInBounds preset.memoryKib preset.timeCost preset.parallelism = true :=
      kdfParamsInBounds_preset preset
    simp [validateHeader, unwrappedHeader, hbounds]

theorem suffix_chunkFileName (u : U.Uuid) (i : UInt32) :
    CHUNK_FILE_SUFFIX.toList <:+ (chunkFileName U u i).toList := by
  rw [chunkFileName, String.toList_append]
  exact List.suffix_append _ _

theorem isName_chunkFileName
    (hhyphens : ∀ u, UuidCrate.isHyphenated (U.toString u).toList = true) (u : U.Uuid)
    (i : UInt32) : IsName (chunkFileName U u i) := by
  have hdigits : '/' ∉ (Nat.repr i.toNat).toList := by
    intro h
    rw [Nat.repr, String.toList_ofList] at h
    have hdigit : '/'.isDigit = true := Nat.isDigit_of_mem_toDigits (by decide) (by decide) h
    exact absurd hdigit (by decide)
  have hsuffix : '/' ∉ CHUNK_FILE_SUFFIX.toList := by decide
  constructor
  · intro hempty
    have hlength := U.length_toString u
    simp only [chunkFileName, String.toList_append, List.append_eq_nil_iff] at hempty
    rw [hempty.1.1.1] at hlength
    cases hlength
  · simp only [chunkFileName, String.toList_append, List.mem_append, not_or]
    exact ⟨⟨⟨UuidCrate.slash_notMem_of_isHyphenated (hhyphens u), by decide⟩, hdigits⟩, hsuffix⟩

theorem chunkPathOf_ne_headerPath (u : U.Uuid) (i : UInt32) (dir : PathBuf) :
    chunkPathOf U contentsDir u i ≠ headerPath dir :=
  joinPath_ne_of_suffix (suffix_chunkFileName u i) (by decide) (by decide)

theorem chunkPathOf_ne_indexPath (u : U.Uuid) (i : UInt32) (dir : PathBuf) :
    chunkPathOf U contentsDir u i ≠ indexPath dir :=
  joinPath_ne_of_suffix (suffix_chunkFileName u i) (by decide) (by decide)

theorem indexPath_ne_headerPath (dir dir' : PathBuf) : indexPath dir ≠ headerPath dir' :=
  joinPath_ne_of_suffix (List.suffix_refl _) (by decide) (by decide)

theorem chunkSize_of_valid {path : PathBuf} (h : validateHeader path header = .ok ()) :
    header.chunkSize = CHUNK_SIZE := by
  unfold validateHeader at h
  split at h
  · cases h
  split at h
  · cases h
  · rename_i halgorithms
    simp only [not_or, not_not] at halgorithms
    exact halgorithms.2.2.2

/-- A new store has the header that its password unlocks. -/
theorem createStoreCore_ok (hplain : IsPlain contentsDir) {preset : KdfUnlockPreset}
    (h : (createStoreCore C faults draws contentsDir password preset).exec d =
      (.ok (header, contentKey, indexKey), d')) :
    (∃ masterKey, Unlocks C header password masterKey contentKey indexKey) ∧
      HeaderStored C contentsDir header d' ∧ header.chunkSize = CHUNK_SIZE := by
  obtain ⟨_, m₁, -, h⟩ := exec_bind_eq_ok_iff.mp h
  obtain ⟨_, m₂, -, h⟩ := exec_bind_eq_ok_iff.mp h
  rw [exec_bind, exec_get] at h
  dsimp only at h
  obtain ⟨created, m₃, hheader, h⟩ := exec_bind_eq_ok_iff.mp h
  obtain ⟨keys, hkeys, h⟩ := exec_ofExcept_bind_eq_ok_iff.mp h
  obtain ⟨_, m₄, hsave, h⟩ := exec_bind_eq_ok_iff.mp h
  cases h
  obtain ⟨hunlocks, hvalid⟩ := createHeader_ok hkeys hheader
  obtain ⟨body, hbody, hwrite⟩ := exec_ofExcept_bind_eq_ok_iff.mp hsave
  have hjson : C.headerJson.toString header = .ok body := by
    cases hrun : C.headerJson.toString header with
    | error error =>
        rw [hrun] at hbody
        cases hbody
    | ok text =>
        rw [hrun] at hbody
        rw [Except.ok.inj hbody]
  obtain ⟨hfiles, -, -⟩ := Upriv.writeBytesAtomic_ok faults hplain isName_HEADER_FILE_NAME hwrite
  refine ⟨⟨_, hunlocks⟩, ⟨⟨utf8 body.toList, body, ?_, decodeUtf8_utf8 body,
    C.headerJson.fromStr_toString _ _ hjson⟩, hvalid _⟩, ?_⟩
  · rw [hfiles]
    exact Function.update_self _ _ _
  · exact chunkSize_of_valid (hvalid "")

/-- Creating a store leaves the directory of its chunks. -/
theorem dataDir_createSeededStore (hplain : IsPlain contentsDir) {preset : KdfUnlockPreset}
    (h : (createSeededStore C faults draws contentsDir password preset).exec d =
      (.ok header, d')) {dir : PathBuf} (hdir : dir ∈ wayTo (joinPath contentsDir DATA_DIR_NAME)) :
    dir ∈ d'.dirs := by
  obtain ⟨⟨created, keys⟩, m₁, hcore, h⟩ := exec_bind_eq_ok_iff.mp h
  dsimp only at h
  rw [exec_bind, exec_get] at h
  dsimp only at h
  obtain ⟨index, m₂, hseed, h⟩ := exec_bind_eq_ok_iff.mp h
  obtain ⟨_, m₃, hseal, h⟩ := exec_bind_eq_ok_iff.mp h
  cases h
  have hlater := ((fills_onContents hplain _ _ _ _ _).exec_eq hseed).2.trans
    ((fills_saveSealedIndex hplain _ _ _).exec_eq hseal).2
  refine hlater ?_
  obtain ⟨_, m₄, -, hcore⟩ := exec_bind_eq_ok_iff.mp hcore
  obtain ⟨_, m₅, hmake, hcore⟩ := exec_bind_eq_ok_iff.mp hcore
  rw [exec_bind, exec_get] at hcore
  dsimp only at hcore
  obtain ⟨_, m₆, hheader, hcore⟩ := exec_bind_eq_ok_iff.mp hcore
  obtain ⟨_, -, hcore⟩ := exec_ofExcept_bind_eq_ok_iff.mp hcore
  obtain ⟨_, m₇, hsave, hcore⟩ := exec_bind_eq_ok_iff.mp hcore
  cases hcore
  refine ((fills_saveHeader hplain _).exec_eq hsave).2 ?_
  have hkek : SameDisk m₅ m₆ := by
    refine Preserves.exec_eq ?_ hheader
    exact preserves_bind (sameDisk_deriveKek _ _ _ _ _) fun kek =>
      preserves_bind (preserves_ofExcept _) fun wrapped => preserves_pure _
  rw [hkek.2]
  exact Upriv.createDirAll_ok faults hmake dir hdir

theorem length_seedPlaintext_le (contentIdentity : U.Uuid) :
    (seedPlaintext contentIdentity).length ≤ 4 * 157 := by
  have hchars := length_utf8_le (seedText contentIdentity).toList
  have hlength : (seedText contentIdentity).toList.length = 157 := by
    rw [seedText, String.toList_append, String.toList_append, List.length_append,
      List.length_append, U.length_toString, length_SEED_TEXT_START, length_SEED_TEXT_END]
  rwa [hlength] at hchars

theorem ceilDiv_le_self (n : ℕ) {c : ℕ} (hc : 0 < c) : n ⌈/⌉ c ≤ n := by
  rw [ceilDiv_le_iff_le_mul hc]
  exact Nat.le_mul_of_pos_left n hc

/-- What a new store holds: its header unlocks with its password, its index is sealed with
the key of that header and has the seed file only, which reads back. -/
theorem createSeededStore_stored (hplain : IsPlain contentsDir) {preset : KdfUnlockPreset}
    (h : (createSeededStore C faults draws contentsDir password preset).exec d =
      (.ok header, d')) :
    ∃ masterKey contentKey indexKey index,
      Unlocks C header password masterKey contentKey indexKey ∧
      HeaderStored C contentsDir header d' ∧
      IndexStored C contentsDir header indexKey index d' ∧
      (∃ call : WriteCall U, index = VaultIndex.empty.push call.entry) ∧
      readLogicalFile C.xchacha contentsDir header contentKey
        (ContentsStore.read ⟨index, d'.files⟩) index SEED_LOGICAL_PATH =
          .ok (seedPlaintext header.contentIdentity) := by
  obtain ⟨⟨created, contentKey, indexKey⟩, m₁, hcore, h⟩ := exec_bind_eq_ok_iff.mp h
  dsimp only at h
  rw [exec_bind, exec_get] at h
  dsimp only at h
  obtain ⟨index, m₂, hseed, h⟩ := exec_bind_eq_ok_iff.mp h
  obtain ⟨_, m₃, hseal, h⟩ := exec_bind_eq_ok_iff.mp h
  cases h
  obtain ⟨⟨masterKey, hunlocks⟩, hheader, hchunkSize⟩ := createStoreCore_ok hplain hcore
  -- the seed file, in the files of the disk
  set call := seedCall (draws m₁.calls) header.contentIdentity with hcall
  rw [onContents, exec_op] at hseed
  rcases hwrite : exec (writeLogicalFile C.xchacha contentsDir header contentKey call)
      ⟨VaultIndex.empty, m₁.files⟩ with ⟨_ | _, store⟩
  · rw [hwrite] at hseed
    cases hseed
  rw [hwrite] at hseed
  cases hseed
  have hfits : call.plaintext.length ⌈/⌉ header.chunkSize.toNat < 2 ^ 32 := by
    have hlength : call.plaintext.length ≤ 4 * 157 := length_seedPlaintext_le _
    have hpos : 0 < header.chunkSize.toNat := by rw [hchunkSize]; decide
    have hceil := ceilDiv_le_self call.plaintext.length hpos
    omega
  have hread := read_written hfits hwrite
  have hindex : store.index = VaultIndex.empty.push call.entry := by
    rw [(writeLogicalFile_ok hwrite).2.1]
    rfl
  have hversion : store.index.formatVersion = FORMAT_VERSION := by
    rw [hindex]
    rfl
  have hframe : SameFilesExcept (chunkPathsOf U contentsDir call.newV4)
      ⟨VaultIndex.empty, m₁.files⟩ store := by
    have h : SameFilesExcept (chunkPathsOf U contentsDir call.newV4)
        ⟨VaultIndex.empty, m₁.files⟩
        ((writeLogicalFile C.xchacha contentsDir header contentKey call).exec
          ⟨VaultIndex.empty, m₁.files⟩).2 :=
      sameFilesExcept_writeLogicalFile (fun _ _ _ hfind => by cases hfind)
        fun i => chunkPathOf_mem call.newV4 i
    rwa [hwrite] at h
  have hsealed := (saveSealedIndex_ok hseal).2.2
  refine ⟨masterKey, contentKey, indexKey, store.index, hunlocks, ?_, ?_, ⟨call, hindex⟩, ?_⟩
  · refine hheader.of_sameAt ((hsealed _ (indexPath_ne_headerPath _ _).symm).trans ?_)
    refine hframe _ ?_
    rintro ⟨i, hi⟩
    exact chunkPathOf_ne_headerPath _ _ _ hi
  · exact indexStored_saveSealedIndex hversion hseal
  · refine Eq.trans ?_ hread
    refine readLogicalFile_congr rfl fun entry u i _ _ _ => ?_
    have hsame : d'.files (chunkPathOf U contentsDir u (.ofNat i)) =
        store.files (chunkPathOf U contentsDir u (.ofNat i)) :=
      hsealed _ (chunkPathOf_ne_indexPath _ _ _)
    simp only [ContentsStore.read, hsame]

end Upriv.Contents
