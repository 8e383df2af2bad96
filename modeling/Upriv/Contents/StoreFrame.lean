import Upriv.Contents.StoreFiles
import Upriv.Contents.Write

/-!
# What the store operations touch

Opening and hashing a store read only; creating and resealing it change files
below its directory, and a success leaves header and index in place.
-/

namespace Upriv.Contents

open FallibleM

variable {U : UuidCrate} {C : StoreCrates U} {faults : Upriv.Faults}
  {draws : ℕ → StoreDraws U} {dir contentsDir : PathBuf}

/-! ## Paths of the store -/

theorem isName_HEADER_FILE_NAME : IsName HEADER_FILE_NAME := by decide
theorem isName_INDEX_DIR_NAME : IsName INDEX_DIR_NAME := by decide
theorem isName_INDEX_FILE_NAME : IsName INDEX_FILE_NAME := by decide
theorem isName_DATA_DIR_NAME : IsName DATA_DIR_NAME := by decide

theorem isPlain_indexDir (contentsDir : PathBuf) :
    IsPlain (joinPath contentsDir INDEX_DIR_NAME) :=
  isPlain_joinPath contentsDir isName_INDEX_DIR_NAME

theorem below_headerPath (hplain : IsPlain contentsDir) :
    Disk.Below contentsDir (headerPath contentsDir) :=
  below_joinPath hplain _

theorem below_indexPath (hplain : IsPlain contentsDir) :
    Disk.Below contentsDir (indexPath contentsDir) :=
  below_trans hplain (isPlain_indexDir contentsDir) (below_joinPath hplain _)
    (below_joinPath (isPlain_indexDir contentsDir) _)

theorem below_chunkPathOf (hplain : IsPlain contentsDir) (parsed : U.Uuid)
    (chunkIndex : UInt32) : Disk.Below contentsDir (chunkPathOf U contentsDir parsed chunkIndex) :=
  below_trans hplain (isPlain_joinPath contentsDir isName_DATA_DIR_NAME)
    (below_joinPath hplain _)
    (below_joinPath (isPlain_joinPath contentsDir isName_DATA_DIR_NAME) _)

/-! ## Reading -/

theorem sameDisk_deriveKek (password salt : Bytes) (memoryKib timeCost p : UInt32) :
    Preserves SameDisk (deriveKek C faults password salt memoryKib timeCost p) := by
  refine preserves_bind (preserves_ensure _ _) fun _ => ?_
  refine preserves_bind (preserves_op fun d => ⟨rfl, rfl⟩) fun _ => ?_
  exact preserves_ofExcept _

theorem sameDisk_loadHeader (contentsDir : PathBuf) :
    Preserves SameDisk (loadHeader C faults contentsDir) := by
  refine preserves_bind preserves_get fun d => ?_
  refine preserves_bind (preserves_ensure _ _) fun _ => ?_
  refine preserves_bind (preserves_readToString faults _) fun raw => ?_
  split
  · exact preserves_throw _
  · exact preserves_bind (preserves_ofExcept _) fun _ => preserves_pure _

theorem sameDisk_unwrapHeaderMaster (header : VaultHeader U) (password : Bytes) :
    Preserves SameDisk (unwrapHeaderMaster C faults header password) := by
  refine preserves_bind (preserves_ofExcept _) fun wrap => ?_
  refine preserves_bind (sameDisk_deriveKek _ _ _ _ _) fun kek => ?_
  exact preserves_ofExcept _

theorem sameDisk_loadSealedIndex (contentsDir : PathBuf) (header : VaultHeader U)
    (indexKey : IndexKey) :
    Preserves SameDisk (loadSealedIndex C faults contentsDir header indexKey) := by
  refine preserves_bind preserves_get fun d => ?_
  refine preserves_bind (preserves_ensure _ _) fun _ => ?_
  refine preserves_bind (preserves_readFile faults _) fun blob => ?_
  refine preserves_bind (preserves_ofExcept _) fun plain => ?_
  refine preserves_bind (preserves_ofExcept _) fun index => ?_
  exact preserves_bind (preserves_ensure _ _) fun _ => preserves_pure _

theorem sameDisk_openStore (contentsDir : PathBuf) (password : Bytes) :
    Preserves SameDisk (openStore C faults contentsDir password) := by
  refine preserves_bind (sameDisk_loadHeader contentsDir) fun header => ?_
  refine preserves_bind (sameDisk_unwrapHeaderMaster header password) fun masterKey => ?_
  refine preserves_bind (preserves_ofExcept _) fun keys => ?_
  exact preserves_bind (sameDisk_loadSealedIndex contentsDir header keys.2) fun index =>
    preserves_pure _

theorem sameDisk_contentHashHex (contentsDir : PathBuf) :
    Preserves SameDisk (contentHashHex C faults contentsDir) := by
  refine preserves_bind (preserves_readFile faults _) fun headerBytes => ?_
  exact preserves_bind (preserves_readFile faults _) fun indexBytes => preserves_pure _

theorem readFile_ok {path : PathBuf} {bytes : Bytes} {d d' : Disk}
    (h : (readFile faults path).exec d = (.ok bytes, d')) : d.files path = some bytes := by
  simp only [readFile, sysCall, exec_op] at h
  split at h
  · cases h
  · cases hfile : d.files path with
    | none => simp [hfile] at h
    | some found => simp_all

/-- What the hash is computed from. -/
theorem contentHashHex_ok {hash : String} {d d' : Disk}
    (h : (contentHashHex C faults contentsDir).exec d = (.ok hash, d')) :
    ∃ headerBytes indexBytes, d.files (headerPath contentsDir) = some headerBytes ∧
      d.files (indexPath contentsDir) = some indexBytes ∧
      hash = "sha256:" ++ C.sha256Hex (headerBytes ++ indexBytes) := by
  obtain ⟨headerBytes, m, hheader, h⟩ := exec_bind_eq_ok_iff.mp h
  obtain ⟨indexBytes, m', hindex, h⟩ := exec_bind_eq_ok_iff.mp h
  have hsame := (preserves_readFile faults _).exec_eq hheader
  cases h
  exact ⟨headerBytes, indexBytes, readFile_ok hheader,
    (congrFun hsame.1 _).symm.trans (readFile_ok hindex), rfl⟩

theorem exec_readFile_undisturbed {path : PathBuf} {bytes : Bytes} {d : Disk}
    (hfile : d.files path = some bytes) :
    (readFile (fun _ => none) path).exec d =
      (.ok bytes, { d with calls := d.calls + 1 }) := by
  simp [readFile, sysCall, hfile]

/-- On an undisturbed disk the hash is the one of the two files. -/
theorem contentHashHex_of_files {headerBytes indexBytes : Bytes} {d : Disk}
    (hheader : d.files (headerPath contentsDir) = some headerBytes)
    (hindex : d.files (indexPath contentsDir) = some indexBytes) :
    ((contentHashHex C (fun _ => none) contentsDir).exec d).1 =
      .ok ("sha256:" ++ C.sha256Hex (headerBytes ++ indexBytes)) := by
  let d₁ : Disk := { d with calls := d.calls + 1 }
  have hsecond : d₁.files (indexPath contentsDir) = some indexBytes := hindex
  rw [contentHashHex, exec_bind_of_ok (exec_readFile_undisturbed hheader),
    exec_bind_of_ok (exec_readFile_undisturbed hsecond)]
  rfl

/-! ## Writing -/

theorem fills_saveHeader (hplain : IsPlain contentsDir) (header : VaultHeader U) :
    Preserves (Fills contentsDir) (saveHeader C faults contentsDir header) := by
  refine preserves_bind (preserves_ofExcept _) fun body => ?_
  exact preserves_fills_writeBytesAtomic faults (below_headerPath hplain) _

theorem fills_createStoreCore (hplain : IsPlain contentsDir) (password : Bytes)
    (preset : KdfUnlockPreset) :
    Preserves (Fills contentsDir)
      (createStoreCore C faults draws contentsDir password preset) := by
  have hmake (path : PathBuf) :
      Preserves (Fills contentsDir) (Upriv.createDirAll faults path) :=
    (preserves_createDirAll faults path).mono fun _ _ h => h.fills contentsDir
  have hheader (draw : StoreDraws U) :
      Preserves (Fills contentsDir) (createHeader C faults password preset draw) := by
    refine preserves_bind ?_ fun kek => ?_
    · exact (sameDisk_deriveKek _ _ _ _ _).mono fun _ _ h => h.onlyNewDirs.fills contentsDir
    · exact preserves_bind (preserves_ofExcept _) fun wrapped => preserves_pure _
  refine preserves_bind (hmake _) fun _ => ?_
  refine preserves_bind (hmake _) fun _ => ?_
  refine preserves_bind preserves_get fun d => ?_
  refine preserves_bind (hheader _) fun header => ?_
  refine preserves_bind (preserves_ofExcept _) fun keys => ?_
  exact preserves_bind (fills_saveHeader hplain header) fun _ => preserves_pure _

/-- A write of a logical file touches chunk files only. -/
theorem fills_onContents (hplain : IsPlain contentsDir) (A : XChaCha20Poly1305)
    (header : VaultHeader U) (contentKey : ContentKey) (call : WriteCall U)
    (index : VaultIndex) :
    Preserves (Fills contentsDir)
      (onContents (writeLogicalFile A contentsDir header contentKey call) index) := by
  refine preserves_op fun d => ?_
  have hsame : SameFilesExcept {path | Disk.Below contentsDir path} ⟨index, d.files⟩
      (exec (writeLogicalFile A contentsDir header contentKey call) ⟨index, d.files⟩).2 :=
    sameFilesExcept_writeLogicalFile
      (fun _ u i _ _ => below_chunkPathOf hplain u i) fun i => below_chunkPathOf hplain _ i
  split <;> rename_i hrun <;> rw [hrun] at hsame <;>
    exact ⟨fun path hout => hsame path hout, Finset.Subset.refl _⟩

theorem fills_saveSealedIndex (hplain : IsPlain contentsDir) (header : VaultHeader U)
    (indexKey : IndexKey) (index : VaultIndex) :
    Preserves (Fills contentsDir)
      (saveSealedIndex C faults draws contentsDir header indexKey index) := by
  refine preserves_bind ?_ fun _ => ?_
  · exact (preserves_createDirAll faults _).mono fun _ _ h => h.fills contentsDir
  refine preserves_bind (preserves_ofExcept _) fun plain => ?_
  refine preserves_bind preserves_get fun d => ?_
  refine preserves_bind (preserves_ofExcept _) fun sealed => ?_
  exact preserves_fills_writeBytesAtomic faults (below_indexPath hplain) _

theorem fills_createSeededStore (hplain : IsPlain contentsDir) (password : Bytes)
    (preset : KdfUnlockPreset) :
    Preserves (Fills contentsDir)
      (createSeededStore C faults draws contentsDir password preset) := by
  refine preserves_bind (fills_createStoreCore hplain password preset) fun store => ?_
  refine preserves_bind preserves_get fun d => ?_
  refine preserves_bind (fills_onContents hplain _ _ _ _ _) fun index => ?_
  exact preserves_bind (fills_saveSealedIndex hplain _ _ _) fun _ => preserves_pure _

/-! ## What a success leaves in place -/

/-- The directories on the way to a file, and nothing about the file. -/
def WayExists (path : PathBuf) (d : Disk) : Prop :=
  ∀ dir, IsPlain dir → Disk.Below dir path → dir ≠ path → dir ∈ d.dirs

theorem WayExists.of_fills {path : PathBuf} {d d' : Disk} (h : WayExists path d)
    (hfills : Fills dir d d') : WayExists path d' :=
  fun other hplain hbelow hne => hfills.2 (h other hplain hbelow hne)

theorem saveSealedIndex_ok {header : VaultHeader U} {indexKey : IndexKey}
    {index : VaultIndex} {d d' : Disk}
    (h : (saveSealedIndex C faults draws contentsDir header indexKey index).exec d =
      (.ok (), d')) :
    d.dirs ⊆ d'.dirs ∧ WayExists (indexPath contentsDir) d' ∧
      ∀ path, path ≠ indexPath contentsDir → d'.files path = d.files path := by
  obtain ⟨_, m, hmake, h⟩ := exec_bind_eq_ok_iff.mp h
  have hnew := (preserves_createDirAll faults _).exec_eq hmake
  obtain ⟨plain, -, h⟩ := exec_ofExcept_bind_eq_ok_iff.mp h
  rw [exec_bind, exec_get] at h
  dsimp only at h
  obtain ⟨sealed, -, h⟩ := exec_ofExcept_bind_eq_ok_iff.mp h
  obtain ⟨hfiles, hdirs, hplaced⟩ := Upriv.writeBytesAtomic_ok faults (isPlain_indexDir contentsDir)
    isName_INDEX_FILE_NAME h
  refine ⟨hnew.2.trans hdirs, hplaced.2, fun path hne => ?_⟩
  rw [hfiles, ← hnew.1]
  exact Function.update_of_ne hne _ _

theorem createSeededStore_ok (hplain : IsPlain contentsDir) {password : Bytes}
    {preset : KdfUnlockPreset} {header : VaultHeader U} {d d' : Disk}
    (h : (createSeededStore C faults draws contentsDir password preset).exec d =
      (.ok header, d')) :
    WayExists (headerPath contentsDir) d' ∧ WayExists (indexPath contentsDir) d' := by
  obtain ⟨⟨header', contentKey, indexKey⟩, m, hcore, h⟩ := exec_bind_eq_ok_iff.mp h
  dsimp only at h
  rw [exec_bind, exec_get] at h
  dsimp only at h
  obtain ⟨index, m', hseed, h⟩ := exec_bind_eq_ok_iff.mp h
  obtain ⟨_, m'', hindex, h⟩ := exec_bind_eq_ok_iff.mp h
  cases h
  have hseedFills := (fills_onContents hplain _ _ _ _ _).exec_eq hseed
  have hindexFills := (fills_saveSealedIndex hplain _ _ _).exec_eq hindex
  refine ⟨?_, (saveSealedIndex_ok hindex).2.1⟩
  refine WayExists.of_fills (WayExists.of_fills ?_ hseedFills) hindexFills
  obtain ⟨_, m₁, -, hcore⟩ := exec_bind_eq_ok_iff.mp hcore
  obtain ⟨_, m₂, -, hcore⟩ := exec_bind_eq_ok_iff.mp hcore
  rw [exec_bind, exec_get] at hcore
  dsimp only at hcore
  obtain ⟨header'', m₃, -, hcore⟩ := exec_bind_eq_ok_iff.mp hcore
  obtain ⟨keys, -, hcore⟩ := exec_ofExcept_bind_eq_ok_iff.mp hcore
  obtain ⟨_, m₄, hsave, hcore⟩ := exec_bind_eq_ok_iff.mp hcore
  cases hcore
  obtain ⟨body, -, hwrite⟩ := exec_ofExcept_bind_eq_ok_iff.mp hsave
  exact (Upriv.writeBytesAtomic_ok faults hplain isName_HEADER_FILE_NAME hwrite).2.2.2

end Upriv.Contents
