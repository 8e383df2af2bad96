import Upriv.Contents.Unlock
import Upriv.Support.Succeeds

/-!
# A store that nothing stands in the way of

When the operating system refuses nothing, creating a store and sealing its index succeed:
every step finds the directories that the steps before have made.
-/

namespace Upriv.Contents

open FallibleM

/-! ## Directories -/

section
variable {path dir : PathBuf} {name : String} {d : Disk}

/-- Undisturbed, a directory is made where no file is in its way. -/
theorem createDirAll_succeeds {P : Disk → Prop}
    (hfree : ∀ d, P d → ∀ dir ∈ wayTo path, dir ∈ d.dirs ∨ d.files dir = none)
    (hkeeps : ∀ d d', P d → OnlyNewDirs d d' → (∀ other ∈ d'.dirs, other ∈ d.dirs ∨
      other ∈ wayTo path) → P d') :
    Succeeds P (Upriv.createDirAll noFaults path)
      fun _ d' => P d' ∧ ∀ dir ∈ wayTo path, dir ∈ d'.dirs := by
  have hloop : Succeeds P (Upriv.createDirAll noFaults path) fun _ => P := by
    refine Succeeds.forM fun dir hdir d hd => ?_
    have hnew := preserves_ensureDir noFaults dir d
    rw [ensureDir, exec_bind, exec_get] at hnew ⊢
    dsimp only at hnew ⊢
    by_cases hisDir : d.isDir dir = true
    · rw [if_pos hisDir]
      exact ⟨(), d, rfl, hd⟩
    · have hfile : ({ d with calls := d.calls + 1 } : Disk).isFile dir = false := by
        rcases hfree d hd dir hdir with hthere | hnone
        · exact absurd (decide_eq_true hthere) hisDir
        · change (d.files dir).isSome = false
          rw [hnone]
          rfl
      rw [if_neg hisDir] at hnew ⊢
      simp only [sysCall, exec_op, noFaults, hfile, Bool.false_eq_true, ↓reduceIte] at hnew ⊢
      refine ⟨(), _, rfl, hkeeps d _ hd hnew fun other hother => ?_⟩
      rcases Finset.mem_insert.mp hother with rfl | hmem
      · exact .inr hdir
      · exact .inl hmem
  intro d hd
  obtain ⟨_, d', hrun, hpost⟩ := hloop d hd
  exact ⟨(), d', hrun, hpost, Upriv.createDirAll_ok noFaults hrun⟩

end

/-! ## Filling a directory -/

/-- The folders that a store makes below `dest`. -/
structure StoreFolders (contentsDir dest : PathBuf) (folders : List PathBuf) : Prop where
  plain : ∀ folder ∈ dest :: folders, IsPlain folder
  ways : ∀ folder ∈ folders, ∀ other ∈ wayTo folder, other ∈ wayTo dest ∨ other ∈ folders
  self : contentsDir ∈ dest :: folders
  indexDir : joinPath contentsDir INDEX_DIR_NAME ∈ folders
  dataDir : joinPath contentsDir DATA_DIR_NAME ∈ folders
  header : headerPath contentsDir ∉ folders
  index : indexPath contentsDir ∉ folders

/-- The directory is there, no file is in the way of its folders, and some files are
written already. -/
structure Filling (dest : PathBuf) (folders present : List PathBuf) (d : Disk) : Prop where
  way : ∀ dir ∈ wayTo dest, dir ∈ d.dirs
  free : ∀ folder ∈ folders, d.files folder = none
  present : ∀ path ∈ present, (d.files path).isSome

section
variable {dest dir contentsDir : PathBuf} {name : String} {folders present : List PathBuf}
  {d d' : Disk}

theorem Filling.of_onlyNewDirs (h : Filling dest folders present d) (hnew : OnlyNewDirs d d') :
    Filling dest folders present d' where
  way dir hdir := hnew.2 (h.way dir hdir)
  free folder hfolder := (congrFun hnew.1 folder).trans (h.free folder hfolder)
  present path hpath := (congrFun hnew.1 path).symm ▸ h.present path hpath

theorem Filling.of_sameDisk (h : Filling dest folders present d) (hsame : SameDisk d d') :
    Filling dest folders present d' :=
  h.of_onlyNewDirs hsame.onlyNewDirs

theorem Filling.of_subset {present' : List PathBuf} (h : Filling dest folders present d)
    (hsubset : present' ⊆ present) : Filling dest folders present' d where
  way := h.way
  free := h.free
  present path hpath := h.present path (hsubset hpath)

theorem Filling.write (h : Filling dest folders present d) {path : PathBuf} (bytes : Bytes)
    (hpath : path ∉ folders) :
    Filling dest folders (path :: present) (d.write path (some bytes)) where
  way := h.way
  free folder hfolder := by
    have hne : folder ≠ path := by
      rintro rfl
      exact hpath hfolder
    exact (Function.update_of_ne hne _ _).trans (h.free folder hfolder)
  present other hother := by
    by_cases heq : other = path
    · rw [heq, Disk.files_write, Function.update_self]
      rfl
    · rw [Disk.files_write, Function.update_of_ne heq]
      exact h.present other ((List.mem_cons.mp hother).resolve_left heq)

theorem createFolder_succeeds (hfolders : StoreFolders contentsDir dest folders) {folder : PathBuf}
    (hfolder : folder ∈ dest :: folders) :
    Succeeds (Filling dest folders present) (Upriv.createDirAll noFaults folder)
      fun _ => Filling dest folders present := by
  refine (createDirAll_succeeds ?_ fun d d' h hnew _ => h.of_onlyNewDirs hnew).mono (fun _ h => h)
    fun _ _ h => h.1
  intro d h dir hdir
  rcases List.mem_cons.mp hfolder with rfl | hfolder
  · exact .inl (h.way dir hdir)
  · rcases hfolders.ways _ hfolder dir hdir with hway | hthere
    · exact .inl (h.way dir hway)
    · exact .inr (h.free dir hthere)

theorem writeFile_succeeds (hfolders : StoreFolders contentsDir dest folders)
    (hdir : dir ∈ dest :: folders)
    (hname : IsName name) (hpath : joinPath dir name ∉ folders) (bytes : Bytes) :
    Succeeds (Filling dest folders present)
      (Upriv.writeBytesAtomic noFaults (joinPath dir name) bytes)
      fun _ => Filling dest folders (joinPath dir name :: present) := by
  have hplain : IsPlain dir := hfolders.plain dir hdir
  rw [Upriv.writeBytesAtomic, parent_joinPath hplain hname]
  refine (createFolder_succeeds hfolders hdir).bind fun _ => Succeeds.op fun d h => ?_
  have hcounted : Filling dest folders present { d with calls := d.calls + 1 } := ⟨h.1, h.2, h.3⟩
  exact ⟨(), _, rfl, hcounted.write bytes hpath⟩

/-- The two folders of a store that is alone in its directory. -/
theorem storeFolders_self (hplain : IsPlain contentsDir) :
    StoreFolders contentsDir contentsDir
      [joinPath contentsDir INDEX_DIR_NAME, joinPath contentsDir DATA_DIR_NAME] := by
  have hother {name : String} (hname : IsName name) {other : PathBuf}
      (h : other ∈ wayTo (joinPath contentsDir name)) :
      other ∈ wayTo contentsDir ∨ other = joinPath contentsDir name := by
    obtain ⟨hotherPlain, hbelow⟩ := mem_wayTo.mp h
    rcases below_dir_of_below_joinPath hplain hotherPlain hname.2 hbelow with heq | hup
    · exact .inr heq
    · exact .inl (mem_wayTo.mpr ⟨hotherPlain, hup⟩)
  have hfile {dir : PathBuf} {name : String} (hname : '/' ∉ name.toList)
      (hne : name ≠ INDEX_DIR_NAME) (hne' : name ≠ DATA_DIR_NAME) :
      joinPath dir name ∉ [joinPath contentsDir INDEX_DIR_NAME,
        joinPath contentsDir DATA_DIR_NAME] := by
    simp only [List.mem_cons, List.not_mem_nil, or_false, not_or]
    exact ⟨fun h => hne (name_of_joinPath_eq hname isName_INDEX_DIR_NAME.2 h),
      fun h => hne' (name_of_joinPath_eq hname isName_DATA_DIR_NAME.2 h)⟩
  constructor
  · intro folder hfolder
    simp only [List.mem_cons, List.not_mem_nil, or_false] at hfolder
    rcases hfolder with rfl | rfl | rfl
    · exact hplain
    · exact isPlain_indexDir _
    · exact isPlain_joinPath _ isName_DATA_DIR_NAME
  · intro folder hfolder other hway
    simp only [List.mem_cons, List.not_mem_nil, or_false] at hfolder
    rcases hfolder with rfl | rfl
    · exact (hother isName_INDEX_DIR_NAME hway).imp_right fun h => by simp [h]
    · exact (hother isName_DATA_DIR_NAME hway).imp_right fun h => by simp [h]
  · exact List.mem_cons_self
  · exact List.mem_cons_self
  · exact List.mem_cons_of_mem _ List.mem_cons_self
  · exact hfile isName_HEADER_FILE_NAME.2 (by decide) (by decide)
  · exact hfile isName_INDEX_FILE_NAME.2 (by decide) (by decide)

end

/-! ## The store -/

section
variable {U : UuidCrate} {C : StoreCrates U} {draws : ℕ → StoreDraws U} {contentsDir dest : PathBuf}
  {folders present : List PathBuf} {password : Bytes} {preset : KdfUnlockPreset}

/-- The crates refuse nothing that a store asks of them: messages of one chunk, an index,
the key of this password under a preset, and the documents.  Argon2id takes passwords of
fewer than 2^32 bytes. -/
structure Accepting (C : StoreCrates U) (password : Bytes) (preset : KdfUnlockPreset) :
    Prop where
  encrypts : ∀ key (nonce : XNonce) msg aad, msg.length ≤ CHUNK_SIZE.toNat →
    (C.xchacha.encrypt key nonce.toList msg aad).isSome
  seals : ∀ key (nonce : Vector UInt8 AES_SIV_NONCE_LEN) msg aad,
    (C.aesSiv.encrypt key nonce.toList msg aad).isSome
  argon2id : ∀ salt : Vector UInt8 SALT_LEN, ∃ kek, C.argon2id password salt.toList
    preset.memoryKib preset.timeCost preset.parallelism = .ok kek
  keys : ∀ masterKey, ∃ keys, deriveLayerKeys C masterKey = .ok keys
  headerJson : ∀ header, ∃ text, C.headerJson.toString header = .ok text
  indexJson : ∀ index, ∃ text, C.indexJson.toString index = .ok text
  persistenceJson : ∀ record, ∃ text, C.persistenceJson.toString record = .ok text

theorem createHeader_succeeds (haccepting : Accepting C password preset) (draw : StoreDraws U) :
    Succeeds (Filling dest folders present) (createHeader C noFaults password preset draw)
      fun _ => Filling dest folders present := by
  obtain ⟨kek, hkek⟩ := haccepting.argon2id draw.salt
  have hderive : Succeeds (Filling dest folders present)
      (deriveKek C noFaults password draw.salt.toList preset.memoryKib preset.timeCost
        preset.parallelism) fun found d => found = kek ∧ Filling dest folders present d := by
    refine (Succeeds.ensure (kdfParamsInBounds_preset preset)).bind fun _ => ?_
    refine Succeeds.bind (Q := fun _ => Filling dest folders present)
      (Succeeds.op fun d h => ?_) fun _ => ?_
    · exact ⟨(), _, rfl, h.1, h.2, h.3⟩
    · exact Succeeds.ofExcept (a := kek) (by rw [hkek]; rfl) fun _ h => ⟨rfl, h⟩
  refine hderive.bind fun found => ?_
  have hlength : draw.masterKey.toList.length ≤ CHUNK_SIZE.toNat := by
    rw [Vector.length_toList]
    decide
  obtain ⟨wrapped, hwrapped⟩ := encryptXchacha_succeeds C.xchacha draw.wrapNonce found
    draw.masterKey.toList (storeAadBytes_ne_nil (unwrappedHeader C preset draw) "wrap" none)
    (haccepting.encrypts _ _ _ _ hlength)
  refine Succeeds.bind (Q := fun _ => Filling dest folders present)
    (Succeeds.ofExcept (a := wrapped) hwrapped fun _ h => h.2) fun _ => ?_
  exact Succeeds.pure fun _ h => h

theorem createStoreCore_succeeds (haccepting : Accepting C password preset)
    (hfolders : StoreFolders contentsDir dest folders) :
    Succeeds (Filling dest folders present)
      (createStoreCore C noFaults draws contentsDir password preset)
      fun _ => Filling dest folders (headerPath contentsDir :: present) := by
  have hindexDir := List.mem_cons_of_mem dest hfolders.indexDir
  refine (createFolder_succeeds hfolders hindexDir).bind fun _ => ?_
  refine (createFolder_succeeds hfolders (List.mem_cons_of_mem _ hfolders.dataDir)).bind fun _ => ?_
  refine Succeeds.get_bind fun d hd => ?_
  refine Succeeds.mono (P := Filling dest folders present) ?_ (fun s hs => hs ▸ hd) fun _ _ h => h
  refine (createHeader_succeeds haccepting (draws d.calls)).bind fun header => ?_
  obtain ⟨keys, hkeys⟩ := haccepting.keys (draws d.calls).masterKey
  refine Succeeds.bind (Q := fun _ => Filling dest folders present)
    (Succeeds.ofExcept hkeys fun _ h => h) fun _ => ?_
  obtain ⟨text, htext⟩ := haccepting.headerJson header
  refine Succeeds.bind (Q := fun _ => Filling dest folders (headerPath contentsDir :: present)) ?_
    fun _ => Succeeds.pure fun _ h => h
  refine Succeeds.bind (Q := fun _ => Filling dest folders present)
    (Succeeds.ofExcept (a := text) (by rw [htext]; rfl) fun _ h => h) fun body => ?_
  exact writeFile_succeeds hfolders hfolders.self isName_HEADER_FILE_NAME hfolders.header _

/-- The seed file goes into chunk files, and those are none of the other files. -/
theorem writeSeed_succeeds (haccepting : Accepting C password preset)
    (hchunks : ∀ u i, chunkPathOf U contentsDir u i ∉ folders)
    {header : VaultHeader U} (hchunkSize : header.chunkSize = CHUNK_SIZE) (contentKey : ContentKey)
    {draw : StoreDraws U} (hfaults : ∀ fsCall, draw.chunkFaults fsCall = none)
    (hpresent : ∀ path ∈ present, ∀ u i, path ≠ chunkPathOf U contentsDir u i) :
    Succeeds (Filling dest folders present)
      (onContents (writeLogicalFile C.xchacha contentsDir header contentKey
        (seedCall draw header.contentIdentity)) VaultIndex.empty)
      fun _ => Filling dest folders present := by
  refine Succeeds.op fun d h => ?_
  set call := seedCall draw header.contentIdentity with hcall
  have hok : (exec (writeLogicalFile C.xchacha contentsDir header contentKey call)
      ⟨VaultIndex.empty, d.files⟩).1 = .ok ⟨⟩ := by
    have hpath : logicalPathInvalid SEED_LOGICAL_PATH = false := by decide +kernel
    refine writeLogicalFile_succeeds hpath (by rw [hchunkSize]; decide) hfaults
      (fun nonce msg aad hlength => ?_) fun e he => by cases he
    exact haccepting.encrypts _ _ _ _ (hchunkSize ▸ hlength)
  have hframe : SameFilesExcept (chunkPathsOf U contentsDir call.newV4)
      ⟨VaultIndex.empty, d.files⟩
      (exec (writeLogicalFile C.xchacha contentsDir header contentKey call)
        ⟨VaultIndex.empty, d.files⟩).2 :=
    sameFilesExcept_writeLogicalFile (fun _ _ _ hfind => by cases hfind)
      fun i => chunkPathOf_mem call.newV4 i
  obtain ⟨store, hrun⟩ := exists_exec_eq hok
  rw [hrun] at hframe ⊢
  refine ⟨store.index, _, rfl, h.way, fun folder hfolder => ?_, fun path hpath => ?_⟩
  · refine (hframe folder ?_).trans (h.free folder hfolder)
    rintro ⟨i, rfl⟩
    exact hchunks _ _ hfolder
  · have hsame : store.files path = d.files path :=
      hframe path fun ⟨i, hi⟩ => hpresent path hpath _ _ hi.symm
    change (store.files path).isSome
    rw [hsame]
    exact h.present path hpath

theorem saveSealedIndex_succeeds (haccepting : Accepting C password preset)
    (hfolders : StoreFolders contentsDir dest folders)
    (header : VaultHeader U) (indexKey : IndexKey) (index : VaultIndex) :
    Succeeds (Filling dest folders present)
      (saveSealedIndex C noFaults draws contentsDir header indexKey index)
      fun _ => Filling dest folders (indexPath contentsDir :: present) := by
  have hindexDir := List.mem_cons_of_mem dest hfolders.indexDir
  refine (createFolder_succeeds hfolders hindexDir).bind fun _ => ?_
  obtain ⟨text, htext⟩ := haccepting.indexJson index
  refine Succeeds.bind (Q := fun _ => Filling dest folders present)
    (Succeeds.ofExcept (a := utf8 text.toList) (by rw [encodeIndex, htext]) fun _ h => h)
    fun plain => ?_
  refine Succeeds.get_bind fun d hd => ?_
  refine Succeeds.mono (P := Filling dest folders present) ?_ (fun s hs => hs ▸ hd) fun _ _ h => h
  have haad : (indexAad header).isEmpty = false :=
    List.isEmpty_eq_false_iff.mpr (storeAadBytes_ne_nil header "index" none)
  obtain ⟨ciphertext, hciphertext⟩ := Option.isSome_iff_exists.mp
    (haccepting.seals indexKey (draws d.calls).indexNonce plain (indexAad header))
  refine Succeeds.bind (Q := fun _ => Filling dest folders present)
    (Succeeds.ofExcept (a := (draws d.calls).indexNonce.toList ++ ciphertext)
      (by simp [sealIndex, haad, hciphertext]) fun _ h => h) fun sealed => ?_
  exact writeFile_succeeds hfolders hindexDir isName_INDEX_FILE_NAME hfolders.index _

theorem createSeededStore_succeeds (haccepting : Accepting C password preset)
    (hfolders : StoreFolders contentsDir dest folders)
    (hchunks : ∀ u i, chunkPathOf U contentsDir u i ∉ folders)
    (hfaults : ∀ n fsCall, (draws n).chunkFaults fsCall = none) :
    Succeeds (Filling dest folders [])
      (createSeededStore C noFaults draws contentsDir password preset)
      fun _ => Filling dest folders [indexPath contentsDir, headerPath contentsDir] := by
  have hcore : Succeeds (Filling dest folders [])
      (createStoreCore C noFaults draws contentsDir password preset) fun store d =>
        store.1.chunkSize = CHUNK_SIZE ∧ Filling dest folders [headerPath contentsDir] d := by
    intro d hd
    have hcreates : Succeeds (Filling dest folders [])
        (createStoreCore C noFaults draws contentsDir password preset)
        fun _ => Filling dest folders [headerPath contentsDir] :=
      createStoreCore_succeeds haccepting hfolders
    obtain ⟨⟨header, contentKey, indexKey⟩, d', hrun, hfilling⟩ := hcreates d hd
    have hstored := createStoreCore_ok (hfolders.plain _ hfolders.self) hrun
    exact ⟨_, d', hrun, hstored.2.2, hfilling⟩
  refine hcore.bind fun ⟨header, contentKey, indexKey⟩ => ?_
  refine Succeeds.get_bind fun d hd => ?_
  obtain ⟨hchunkSize, hd⟩ := hd
  dsimp only at hchunkSize ⊢
  refine Succeeds.mono (P := Filling dest folders [headerPath contentsDir]) ?_
    (fun s hs => hs ▸ hd) fun _ _ h => h
  refine (writeSeed_succeeds haccepting hchunks hchunkSize contentKey (hfaults d.calls) ?_).bind
    fun index => ?_
  · intro path hpath u i heq
    rw [List.mem_singleton.mp hpath] at heq
    exact chunkPathOf_ne_headerPath u i _ heq.symm
  · exact (saveSealedIndex_succeeds haccepting hfolders header indexKey index).bind fun _ =>
      Succeeds.pure fun _ h => h

theorem contentHashHex_succeeds (h : headerPath contentsDir ∈ present)
    (h' : indexPath contentsDir ∈ present) :
    Succeeds (Filling dest folders present) (contentHashHex C noFaults contentsDir)
      fun _ => Filling dest folders present := by
  have hread {path : PathBuf} (hpath : path ∈ present) :
      Succeeds (Filling dest folders present) (readFile noFaults path)
        fun _ => Filling dest folders present := by
    intro d hd
    obtain ⟨bytes, hbytes⟩ := Option.isSome_iff_exists.mp (hd.present path hpath)
    exact ⟨bytes, _, exec_readFile_undisturbed hbytes, hd.1, hd.2, hd.3⟩
  exact (hread h).bind fun _ => (hread h').bind fun _ => Succeeds.pure fun _ hd => hd

end

/-! ## Stand-in documents

Codecs that write every document: a document is the list of its fields, each with a mark
before every character and a stop after the last one. -/

/-- Fields one after another. -/
def framed : List (List Char) → List Char
  | [] => []
  | field :: fields => field.flatMap (fun c => ['+', c]) ++ '.' :: framed fields

/-- The fields of a text, the first one begun already. -/
def unframed : List Char → List Char → List (List Char)
  | field, '.' :: rest => field :: unframed [] rest
  | field, '+' :: c :: rest => unframed (field ++ [c]) rest
  | _, _ => []

theorem unframed_field (start field rest : List Char) :
    unframed start (field.flatMap (fun c => ['+', c]) ++ '.' :: rest) =
      (start ++ field) :: unframed [] rest := by
  induction field generalizing start with
  | nil => simp [unframed]
  | cons c field ih =>
      rw [List.flatMap_cons, List.append_assoc]
      change unframed (start ++ [c]) (field.flatMap _ ++ '.' :: rest) = _
      rw [ih, List.append_assoc, List.singleton_append]

theorem unframed_framed (fields : List (List Char)) : unframed [] (framed fields) = fields := by
  induction fields with
  | nil => rfl
  | cons field fields ih => rw [framed, unframed_field, List.nil_append, ih]

/-- A document as its fields. -/
def documentCodec {α : Type} (fields : α → List (List Char))
    (read : List (List Char) → Option α) (h : ∀ a, read (fields a) = some a) : JsonCodec α where
  toString a := .ok (String.ofList (framed (fields a)))
  fromStr text :=
    match read (unframed [] text.toList) with
    | some a => .ok a
    | none => .error "unsupported text"
  fromStr_toString a text htext := by
    cases htext
    rw [String.toList_ofList, unframed_framed, h]

/-- A number as so many strokes. -/
def strokes (n : ℕ) : List Char := List.replicate n '1'

@[simp] theorem length_strokes (n : ℕ) : (strokes n).length = n := List.length_replicate

def headerFields {U : UuidCrate} (header : VaultHeader U) : List (List Char) :=
  [strokes header.formatVersion.toNat, (U.toString header.contentIdentity).toList,
    header.kdf.alg.toList, strokes header.kdf.memoryKib.toNat, strokes header.kdf.timeCost.toNat,
    strokes header.kdf.parallelism.toNat, header.kdf.saltB64.toList, header.aead.toList,
    header.nameCipher.toList, strokes header.chunkSize.toNat, header.wrappedMasterKeyB64.toList]

def readHeader (U : UuidCrate) : List (List Char) → Option (VaultHeader U)
  | [version, identity, alg, memory, time, lanes, salt, aead, names, chunk, wrapped] =>
      (U.parseStr (String.ofList identity)).map fun identity => {
        formatVersion := UInt32.ofNat version.length
        contentIdentity := identity
        kdf := {
          alg := String.ofList alg
          memoryKib := UInt32.ofNat memory.length
          timeCost := UInt32.ofNat time.length
          parallelism := UInt32.ofNat lanes.length
          saltB64 := String.ofList salt }
        aead := String.ofList aead
        nameCipher := String.ofList names
        chunkSize := UInt32.ofNat chunk.length
        wrappedMasterKeyB64 := String.ofList wrapped }
  | _ => none

theorem readHeader_headerFields {U : UuidCrate} (header : VaultHeader U) :
    readHeader U (headerFields header) = some header := by
  simp [headerFields, readHeader, U.parseStr_toString]

def entryFields (entry : VaultIndexEntry) : List (List Char) :=
  [entry.fileId.toList, entry.path.toList, strokes entry.size.toNat]

def readEntries : List (List Char) → List VaultIndexEntry
  | fileId :: path :: size :: rest =>
      ⟨String.ofList fileId, String.ofList path, UInt64.ofNat size.length⟩ :: readEntries rest
  | _ => []

theorem readEntries_entryFields (entries : List VaultIndexEntry) :
    readEntries (entries.flatMap entryFields) = entries := by
  induction entries with
  | nil => rfl
  | cons entry entries ih => simp [entryFields, readEntries, ih]

def indexFields (index : VaultIndex) : List (List Char) :=
  strokes index.formatVersion.toNat :: index.entries.flatMap entryFields

def readIndex : List (List Char) → Option VaultIndex
  | version :: fields => some ⟨UInt32.ofNat version.length, readEntries fields⟩
  | [] => none

theorem readIndex_indexFields (index : VaultIndex) :
    readIndex (indexFields index) = some index := by
  simp [indexFields, readIndex, readEntries_entryFields]

/-- An absent text is empty, a present one has a mark. -/
def optionalField : Option String → List Char
  | none => []
  | some text => '=' :: text.toList

def readOptional : List Char → Option String
  | [] => none
  | _ :: text => some (String.ofList text)

@[simp] theorem readOptional_optionalField (text : Option String) :
    readOptional (optionalField text) = text := by
  cases text <;> simp [optionalField, readOptional]

def persistenceFields (record : VaultPersistence) : List (List Char) :=
  [strokes record.formatVersion.toNat, record.vaultId.toList, record.displayName.toList,
    strokes record.syncGeneration.toNat, optionalField record.contentHash,
    optionalField record.lastCloseOkAt, record.persistence.toList]

def readPersistence : List (List Char) → Option VaultPersistence
  | [version, vaultId, displayName, generation, hash, closed, persistence] =>
      some {
        formatVersion := UInt32.ofNat version.length
        vaultId := String.ofList vaultId
        displayName := String.ofList displayName
        syncGeneration := UInt64.ofNat generation.length
        contentHash := readOptional hash
        lastCloseOkAt := readOptional closed
        persistence := String.ofList persistence }
  | _ => none

theorem readPersistence_persistenceFields (record : VaultPersistence) :
    readPersistence (persistenceFields record) = some record := by
  simp [persistenceFields, readPersistence]

/-- Stand-ins that know every document. -/
def StoreCrates.everyDocument (U : UuidCrate) : StoreCrates U :=
  .standIn (documentCodec headerFields (readHeader U) readHeader_headerFields)
    (documentCodec indexFields readIndex readIndex_indexFields)
    (documentCodec persistenceFields readPersistence readPersistence_persistenceFields)

theorem accepting_everyDocument (U : UuidCrate) (password : Bytes) (preset : KdfUnlockPreset) :
    Accepting (StoreCrates.everyDocument U) password preset where
  encrypts _ _ _ _ _ := rfl
  seals _ _ _ _ := rfl
  argon2id _ := ⟨_, rfl⟩
  keys _ := ⟨_, rfl⟩
  headerJson _ := ⟨_, rfl⟩
  indexJson _ := ⟨_, rfl⟩
  persistenceJson _ := ⟨_, rfl⟩

theorem isHyphenated_hyphenated (u : UuidCrate.hyphenated.Uuid) :
    UuidCrate.isHyphenated (UuidCrate.hyphenated.toString u).toList = true := by
  change UuidCrate.isHyphenated (String.ofList u.1).toList = true
  rw [String.toList_ofList]
  exact u.2

end Upriv.Contents
