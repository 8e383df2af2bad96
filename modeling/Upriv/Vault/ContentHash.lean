import Upriv.Contents.StoreFrame
import Upriv.Support.Runs
import Upriv.Vault.OpenClose

/-!
# The content hash of closed vaults

`persistence.json` records the hash of header and index when a vault is created
and each time it is closed.  Over a run of calls the record of a vault without a
session is the hash of its files: a call on another vault does not touch them,
and what breaks the record either restores it or keeps the session.
-/

namespace Upriv.Vault

open FallibleM Contents

section
variable {U : UuidCrate} {env : VaultEnv U} {dir dest : PathBuf} {d d' : Disk}

/-! ## The files of a vault that the record is about -/

/-- Header, index and record. -/
def recordedFiles (dir : PathBuf) : List PathBuf :=
  [headerPath (contentsDir dir), indexPath (contentsDir dir), persistencePath dir]

/-- The record read from an undisturbed disk has the hash computed from it. -/
def HashCurrent (env : VaultEnv U) (dir : PathBuf) (d : Disk) : Prop :=
  ∃ persistence hash,
    ((loadVaultPersistence { env with faults := fun _ => none } dir).exec d).1 =
      .ok (some persistence) ∧
    ((contentHashHex env.crates (fun _ => none) (contentsDir dir)).exec d).1 = .ok hash ∧
    persistence.contentHash = some hash

theorem isPlain_contentsDir (dir : PathBuf) : IsPlain (contentsDir dir) :=
  isPlain_joinPath dir (by decide)

theorem isPlain_recordedFiles {path : PathBuf} (hpath : path ∈ recordedFiles dir) :
    IsPlain path := by
  simp only [recordedFiles, List.mem_cons, List.not_mem_nil, or_false] at hpath
  rcases hpath with rfl | rfl | rfl
  · exact isPlain_joinPath _ isName_HEADER_FILE_NAME
  · exact isPlain_joinPath _ isName_INDEX_FILE_NAME
  · exact isPlain_joinPath _ (by decide)

theorem isPlain_vaultDir {root : VaultRoot} {vaultId : String}
    (h : root.vaultDir vaultId = .ok dir) : IsPlain dir := by
  obtain ⟨id, hid, h⟩ := except_bind_eq_ok.mp h
  cases h
  obtain ⟨-, hvalid⟩ := trimmed_of_vaultIdComponent hid
  refine isPlain_joinPath _ ⟨?_, ?_⟩
  · intro hempty
    rw [String.toList_eq_nil_iff.mp hempty] at hvalid
    exact absurd hvalid (by decide)
  · intro hslash
    exact absurd (all_isSlugChar hvalid hslash) (by decide)

theorem exec_loadVaultPersistence_undisturbed {bytes : Bytes} {text : String}
    {persistence : VaultPersistence} (hfile : d.files (persistencePath dir) = some bytes)
    (htext : decodeUtf8 bytes = some text)
    (hparse : env.crates.persistenceJson.fromStr text = .ok persistence) :
    ((loadVaultPersistence { env with faults := fun _ => none } dir).exec d).1 =
      .ok (some persistence) := by
  have hread : (readToString (fun _ => none) (persistencePath dir)).exec d =
      (.ok text, { d with calls := d.calls + 1 }) := by
    rw [readToString, exec_bind_of_ok (exec_readFile_undisturbed hfile)]
    simp [htext]
  have hisFile : d.isFile (persistencePath dir) = true := by
    rw [Disk.isFile, hfile]
    rfl
  rw [loadVaultPersistence, exec_bind, exec_get]
  simp only [hisFile, Bool.not_true, Bool.false_eq_true, ↓reduceIte]
  rw [exec_bind_of_ok hread, hparse]
  rfl

theorem loadVaultPersistence_ok {persistence : VaultPersistence}
    (h : (loadVaultPersistence env dir).exec d = (.ok (some persistence), d')) :
    ∃ bytes text, d.files (persistencePath dir) = some bytes ∧
      decodeUtf8 bytes = some text ∧
      env.crates.persistenceJson.fromStr text = .ok persistence := by
  rw [loadVaultPersistence, exec_bind, exec_get] at h
  dsimp only at h
  split at h
  · cases h
  · obtain ⟨text, m, hread, h⟩ := exec_bind_eq_ok_iff.mp h
    obtain ⟨bytes, hfile, htext⟩ := readToString_ok env.faults hread
    refine ⟨bytes, text, hfile, htext, ?_⟩
    cases hparse : env.crates.persistenceJson.fromStr text with
    | error error => simp [hparse] at h
    | ok parsed =>
        simp only [hparse, exec_pure, Prod.mk.injEq, Except.ok.injEq, Option.some.injEq] at h
        rw [h.1]

/-- The record depends on three files. -/
theorem HashCurrent.of_sameFiles (h : HashCurrent env dir d)
    (hsame : ∀ path ∈ recordedFiles dir, d'.files path = d.files path) :
    HashCurrent env dir d' := by
  obtain ⟨persistence, hash, hload, hhash, hequal⟩ := h
  obtain ⟨m, hload⟩ := exists_exec_eq hload
  obtain ⟨m', hhash⟩ := exists_exec_eq hhash
  obtain ⟨bytes, text, hfile, htext, hparse⟩ := loadVaultPersistence_ok hload
  obtain ⟨headerBytes, indexBytes, hheader, hindex, rfl⟩ := contentHashHex_ok hhash
  refine ⟨persistence, _, ?_, ?_, hequal⟩
  · refine exec_loadVaultPersistence_undisturbed ?_ htext hparse
    rw [hsame _ (by simp [recordedFiles])]
    exact hfile
  · refine contentHashHex_of_files ?_ ?_
    · rw [hsame _ (by simp [recordedFiles])]
      exact hheader
    · rw [hsame _ (by simp [recordedFiles])]
      exact hindex

/-! ## Writing the record -/

theorem persistencePath_ne_headerPath (dir dir' : PathBuf) :
    persistencePath dir ≠ headerPath dir' := by
  intro h
  exact absurd (name_of_joinPath_eq (by decide) (by decide) h) (by decide)

theorem persistencePath_ne_indexPath (dir dir' : PathBuf) :
    persistencePath dir ≠ indexPath dir' := by
  intro h
  exact absurd (name_of_joinPath_eq (by decide) (by decide) h) (by decide)

theorem headerPath_ne_indexPath (dir dir' : PathBuf) : headerPath dir ≠ indexPath dir' := by
  intro h
  exact absurd (name_of_joinPath_eq (by decide) (by decide) h) (by decide)

theorem saveVaultPersistence_ok (hdir : IsPlain dir) {persistence : VaultPersistence}
    (h : (saveVaultPersistence env dir persistence).exec d = (.ok (), d')) :
    ∃ body, env.crates.persistenceJson.toString persistence = .ok body ∧
      d'.files = Function.update d.files (persistencePath dir) (some (utf8 body.toList)) ∧
      d.dirs ⊆ d'.dirs ∧ Placed (persistencePath dir) d' := by
  obtain ⟨body, hbody, h⟩ := exec_ofExcept_bind_eq_ok_iff.mp h
  refine ⟨body, ?_, Upriv.writeBytesAtomic_ok env.faults hdir (by decide) h⟩
  cases htext : env.crates.persistenceJson.toString persistence with
  | error error => rw [htext] at hbody; cases hbody
  | ok text => rw [htext] at hbody; cases hbody; rfl

/-- A record with the hash of the files as they are is current. -/
theorem hashCurrent_of_recorded (hdir : IsPlain dir) {persistence : VaultPersistence}
    {headerBytes indexBytes : Bytes}
    (hheader : d.files (headerPath (contentsDir dir)) = some headerBytes)
    (hindex : d.files (indexPath (contentsDir dir)) = some indexBytes)
    (hhash : persistence.contentHash =
      some ("sha256:" ++ env.crates.sha256Hex (headerBytes ++ indexBytes)))
    (h : (saveVaultPersistence env dir persistence).exec d = (.ok (), d')) :
    HashCurrent env dir d' := by
  obtain ⟨body, hbody, hfiles, -, -⟩ := saveVaultPersistence_ok hdir h
  have hother (path : PathBuf) (hne : path ≠ persistencePath dir) :
      d'.files path = d.files path := by
    rw [hfiles, Function.update_of_ne hne]
  refine ⟨persistence, _, ?_, contentHashHex_of_files ?_ ?_, hhash⟩
  · have hat : d'.files (persistencePath dir) = some (utf8 body.toList) := by
      rw [hfiles, Function.update_self]
    exact exec_loadVaultPersistence_undisturbed hat (decodeUtf8_utf8 body)
      (env.crates.persistenceJson.fromStr_toString _ _ hbody)
  · rw [hother _ (persistencePath_ne_headerPath _ _).symm]
    exact hheader
  · rw [hother _ (persistencePath_ne_indexPath _ _).symm]
    exact hindex

/-! ## `create_vault` -/

theorem fills_saveVaultPersistence (hdir : IsPlain dir) (persistence : VaultPersistence) :
    Preserves (Fills dir) (saveVaultPersistence env dir persistence) :=
  preserves_bind (preserves_ofExcept _) fun _ =>
    preserves_fills_writeBytesAtomic env.faults (below_joinPath hdir _) _

theorem fills_saveVaultConfig (hdir : IsPlain dir) (config : VaultConfig) :
    Preserves (Fills dir) (saveVaultConfig env.faults env.codec env.canonicalize dir config) :=
  preserves_bind (preserves_ofExcept _) fun _ =>
    preserves_fills_writeBytesAtomicExistingParent env.faults (below_joinPath hdir _) _

theorem fills_fillDestination (hdest : IsPlain dest) (config : VaultConfig) (password : Bytes)
    (preset : KdfUnlockPreset) :
    Preserves (Fills dest) (fillDestination env dest config password preset) := by
  have hcontents : Preserves (Fills dest) (createSeededStore env.crates env.faults env.draws
      (contentsDir dest) password preset) :=
    (fills_createSeededStore (isPlain_contentsDir dest) password preset).mono fun _ _ h =>
      h.of_below hdest (isPlain_contentsDir dest) (below_joinPath hdest _)
  refine preserves_bind (fills_saveVaultConfig hdest config) fun _ => ?_
  refine preserves_bind hcontents fun _ => ?_
  refine preserves_bind ?_ fun _ => ?_
  · exact (preserves_createDirAll env.faults _).mono fun _ _ h => h.fills dest
  refine preserves_bind ?_ fun hash => ?_
  · exact (sameDisk_contentHashHex _).mono fun _ _ h => h.onlyNewDirs.fills dest
  exact preserves_bind preserves_get fun d => fills_saveVaultPersistence hdest _

theorem onlyBelow_fillOrRemove (hdest : IsPlain dest) (config : VaultConfig) (password : Bytes)
    (preset : KdfUnlockPreset) :
    Preserves (OnlyBelow dest) (fillOrRemove env dest config password preset) := by
  refine preserves_bind ?_ fun outcome => ?_
  · exact preserves_attempt ((fills_fillDestination hdest config password preset).mono
      fun _ _ h => h.onlyBelow)
  split
  · exact preserves_pure _
  · refine preserves_bind ?_ fun _ => preserves_throw _
    exact preserves_attempt (preserves_removeDirAll env.faults env.leftover dest)

theorem createDestination_ok (h : (createDestination env dest).exec d = (.ok (), d')) :
    d.exists_ dest = false := by
  rw [createDestination, exec_bind, exec_attempt] at h
  dsimp only at h
  cases hcreate : ((createDir env.faults dest).exec d).1 with
  | error error =>
      rw [hcreate] at h
      cases error <;> dsimp only at h <;> try cases h
      split at h <;> cases h
  | ok _ =>
      obtain ⟨m, hcreate⟩ := exists_exec_eq hcreate
      simp only [createDir, sysCall, exec_op] at hcreate
      split at hcreate
      · cases hcreate
      · by_cases hexists : d.exists_ dest
        · have hthere : ({ d with calls := d.calls + 1 } : Disk).exists_ dest = true := hexists
          simp [hthere] at hcreate
        · exact Bool.eq_false_iff.mpr hexists

theorem onlyNewDirs_createDestination (dest : PathBuf) :
    Preserves OnlyNewDirs (createDestination env dest) := by
  refine preserves_bind (preserves_attempt (preserves_createDir env.faults dest)) fun _ => ?_
  split
  · exact preserves_pure _
  · split
    · exact preserves_throw _
    · exact preserves_throw _
  · exact preserves_throw _

/-- Whatever the outcome, the files of other vaults stay. -/
theorem keepsPlaced_createVault (root : VaultRoot) (config : VaultConfig) (password : Bytes)
    (preset : KdfUnlockPreset) :
    Preserves KeepsPlaced (createVault env root config password preset) := by
  refine preserves_bind (preserves_ensure _ _) fun _ => ?_
  refine preserves_bind (preserves_ensure _ _) fun _ => ?_
  intro d
  rw [exec_ofExcept_bind]
  cases haddr : root.vaultDir (trim config.vault.id) with
  | error error => exact refl d
  | ok dest =>
      dsimp only
      have hdest := isPlain_vaultDir haddr
      refine preserves_bind ?_ (fun _ => ?_) d
      · exact (preserves_createDirAll env.faults _).mono fun _ _ h => h.keepsPlaced
      intro m
      have hcreate : OnlyNewDirs m (exec (createDestination env dest) m).2 :=
        onlyNewDirs_createDestination dest m
      rw [exec_bind]
      rcases hrun : (createDestination env dest).exec m with ⟨error | _, m'⟩
      · rw [hrun] at hcreate
        exact hcreate.keepsPlaced
      · rw [hrun] at hcreate
        refine OnlyBelow.keepsPlaced ?_ hdest (createDestination_ok hrun)
        have hnew := (hcreate.fills dest).onlyBelow
        exact IsTrans.trans _ _ _ hnew (onlyBelow_fillOrRemove hdest _ _ _ m')

theorem fillDestination_ok (hdest : IsPlain dest) {config : VaultConfig} {password : Bytes}
    {preset : KdfUnlockPreset}
    (h : (fillDestination env dest config password preset).exec d = (.ok (), d')) :
    HashCurrent env dest d' ∧ ∀ path ∈ recordedFiles dest, Placed path d' := by
  obtain ⟨_, m₁, -, h⟩ := exec_bind_eq_ok_iff.mp h
  obtain ⟨header, m₂, hstore, h⟩ := exec_bind_eq_ok_iff.mp h
  obtain ⟨_, m₃, hbackups, h⟩ := exec_bind_eq_ok_iff.mp h
  obtain ⟨hash, m₄, hhash, h⟩ := exec_bind_eq_ok_iff.mp h
  rw [exec_bind, exec_get] at h
  dsimp only at h
  obtain ⟨hway, hway'⟩ := createSeededStore_ok (isPlain_contentsDir dest) hstore
  have hnew := (preserves_createDirAll env.faults _).exec_eq hbackups
  have hsame := (sameDisk_contentHashHex _).exec_eq hhash
  obtain ⟨headerBytes, indexBytes, hheader, hindex, rfl⟩ := contentHashHex_ok hhash
  have hheader₄ : m₄.files (headerPath (contentsDir dest)) = some headerBytes :=
    (congrFun hsame.1 _).trans hheader
  have hindex₄ : m₄.files (indexPath (contentsDir dest)) = some indexBytes :=
    (congrFun hsame.1 _).trans hindex
  refine ⟨hashCurrent_of_recorded hdest hheader₄ hindex₄ rfl h, ?_⟩
  obtain ⟨body, -, hfiles, hdirs, hplaced⟩ := saveVaultPersistence_ok hdest h
  have hgrow : m₂.dirs ⊆ d'.dirs := (hnew.2.trans (hsame.2 ▸ Finset.Subset.refl _)).trans hdirs
  intro path hpath
  simp only [recordedFiles, List.mem_cons, List.not_mem_nil, or_false] at hpath
  rcases hpath with rfl | rfl | rfl
  · refine ⟨?_, fun other hplain hbelow hne => hgrow (hway other hplain hbelow hne)⟩
    rw [hfiles, Function.update_of_ne (persistencePath_ne_headerPath _ _).symm, hheader₄]
    rfl
  · refine ⟨?_, fun other hplain hbelow hne => hgrow (hway' other hplain hbelow hne)⟩
    rw [hfiles, Function.update_of_ne (persistencePath_ne_indexPath _ _).symm, hindex₄]
    rfl
  · exact hplaced

theorem createVault_ok {root : VaultRoot} {config : VaultConfig} {password : Bytes}
    {preset : KdfUnlockPreset}
    (h : (createVault env root config password preset).exec d = (.ok (), d')) :
    ∃ dest, root.vaultDir (trim config.vault.id) = .ok dest ∧ HashCurrent env dest d' ∧
      ∀ path ∈ recordedFiles dest, Placed path d' := by
  rw [createVault, exec_ensure_bind_eq_ok_iff] at h
  obtain ⟨-, h⟩ := h
  rw [exec_ensure_bind_eq_ok_iff] at h
  obtain ⟨-, h⟩ := h
  obtain ⟨dest, haddr, h⟩ := exec_ofExcept_bind_eq_ok_iff.mp h
  obtain ⟨_, m, -, h⟩ := exec_bind_eq_ok_iff.mp h
  obtain ⟨_, m', -, h⟩ := exec_bind_eq_ok_iff.mp h
  refine ⟨dest, haddr, ?_⟩
  rw [fillOrRemove, exec_bind, exec_attempt] at h
  dsimp only at h
  cases hfill : ((fillDestination env dest (trimmedId config) password preset).exec m').1 with
  | error error =>
      rw [hfill] at h
      simp [exec_bind] at h
  | ok _ =>
      obtain ⟨m'', hfill⟩ := exists_exec_eq hfill
      rw [hfill] at h
      cases h
      exact fillDestination_ok (isPlain_vaultDir haddr) hfill

/-! ## `close_vault` -/

theorem indexPath_injective {dir dir' : PathBuf} (hdir : IsPlain dir) (hdir' : IsPlain dir')
    (h : indexPath (contentsDir dir) = indexPath (contentsDir dir')) : dir = dir' := by
  have hindexDir := dir_of_joinPath_eq (isPlain_indexDir _) (isPlain_indexDir _) h
  have hcontents := dir_of_joinPath_eq (isPlain_contentsDir dir) (isPlain_contentsDir dir')
    hindexDir
  exact dir_of_joinPath_eq hdir hdir' hcontents

/-- The files that closing a vault writes. -/
def closedFiles (dir : PathBuf) : List PathBuf :=
  [indexPath (contentsDir dir), persistencePath dir]

/-- Closing one vault writes none of the files of another one. -/
theorem recordedFiles_not_closedFiles {dir dir' path : PathBuf} (hdir : IsPlain dir)
    (hdir' : IsPlain dir') (hne : dir ≠ dir') (hpath : path ∈ recordedFiles dir) :
    path ∉ closedFiles dir' := by
  simp only [recordedFiles, closedFiles, List.mem_cons, List.not_mem_nil, or_false,
    not_or] at hpath ⊢
  rcases hpath with rfl | rfl | rfl
  · exact ⟨headerPath_ne_indexPath _ _, (persistencePath_ne_headerPath _ _).symm⟩
  · exact ⟨fun h => hne (indexPath_injective hdir hdir' h),
      (persistencePath_ne_indexPath _ _).symm⟩
  · exact ⟨persistencePath_ne_indexPath _ _, fun h => hne (dir_of_joinPath_eq hdir hdir' h)⟩

/-- Files of `paths` may be replaced; nothing is removed. -/
def Overwrites (paths : List PathBuf) (d d' : Disk) : Prop :=
  (∀ path, path ∉ paths → d'.files path = d.files path) ∧
    (∀ path, (d.files path).isSome → (d'.files path).isSome) ∧ d.dirs ⊆ d'.dirs

instance (paths : List PathBuf) : IsPreorder Disk (Overwrites paths) where
  refl _ := ⟨fun _ _ => rfl, fun _ => id, Finset.Subset.refl _⟩
  trans _ _ _ h h' :=
    ⟨fun path hout => (h'.1 path hout).trans (h.1 path hout),
      fun path => h'.2.1 path ∘ h.2.1 path, h.2.2.trans h'.2.2⟩

section
variable {paths : List PathBuf}

theorem Overwrites.of_onlyNewDirs (h : OnlyNewDirs d d') : Overwrites paths d d' :=
  ⟨fun path _ => congrFun h.1 path, fun path => by rw [congrFun h.1 path]; exact id, h.2⟩

theorem Overwrites.placed {path : PathBuf} (h : Overwrites paths d d') (hplaced : Placed path d) :
    Placed path d' :=
  ⟨h.2.1 path hplaced.1, fun other hplain hbelow hne => h.2.2 (hplaced.2 other hplain hbelow hne)⟩

theorem overwrites_writeBytesAtomic (faults : Upriv.Faults) {path : PathBuf}
    (hpath : path ∈ paths) (bytes : Bytes) :
    Preserves (Overwrites paths) (Upriv.writeBytesAtomic faults path bytes) := by
  have hwrite : Preserves (Overwrites paths)
      (sysCall faults fun d => (.ok (), d.write path (some bytes))) := by
    refine preserves_sysCall faults (fun d n => .of_onlyNewDirs ⟨rfl, Finset.Subset.refl _⟩) ?_
    refine fun d => ⟨fun other hout => Function.update_of_ne ?_ _ _, fun other hsome => ?_,
      Finset.Subset.refl _⟩
    · rintro rfl
      exact hout hpath
    · by_cases heq : other = path
      · simp [heq]
      · simpa [heq] using hsome
  unfold Upriv.writeBytesAtomic
  split
  · exact hwrite
  · exact preserves_bind ((preserves_createDirAll faults _).mono fun _ _ h => .of_onlyNewDirs h)
      fun _ => hwrite

end

theorem sameDisk_loadVaultConfigRaw (faults : Upriv.Faults) (codec : TomlCodec VaultConfig)
    (dir : PathBuf) : Preserves SameDisk (loadVaultConfigRaw faults codec dir) := by
  refine preserves_bind preserves_get fun d => ?_
  refine preserves_bind (preserves_ensure _ _) fun _ => ?_
  refine preserves_bind (preserves_readToString faults _) fun raw => ?_
  split
  · exact preserves_throw _
  · exact preserves_bind (preserves_ofExcept _) fun _ => preserves_pure _

theorem overwrites_persistClosed (dir : PathBuf) (session : OpenSession U) :
    Preserves (Overwrites (closedFiles dir)) (persistClosed env dir session) := by
  refine preserves_bind ?_ fun _ => ?_
  · refine preserves_bind ?_ fun _ => ?_
    · exact (preserves_createDirAll env.faults _).mono fun _ _ h => .of_onlyNewDirs h
    refine preserves_bind (preserves_ofExcept _) fun plain => ?_
    refine preserves_bind preserves_get fun d => ?_
    refine preserves_bind (preserves_ofExcept _) fun sealed => ?_
    exact overwrites_writeBytesAtomic env.faults (by simp [closedFiles]) _
  refine preserves_bind ?_ fun hash => ?_
  · exact (sameDisk_contentHashHex _).mono fun _ _ h => .of_onlyNewDirs h.onlyNewDirs
  refine preserves_bind (preserves_attempt ?_) fun outcome => ?_
  · exact (sameDisk_loadVaultConfigRaw env.faults env.codec dir).mono fun _ _ h =>
      .of_onlyNewDirs h.onlyNewDirs
  have hrecord (displayName : String) :
      Preserves (Overwrites (closedFiles dir)) (do
        let d ← get
        saveVaultPersistence env dir (persistenceClosed session.vaultId displayName (some hash)
          (env.timestamp d.calls))) := by
    refine preserves_bind preserves_get fun d => ?_
    refine preserves_bind (preserves_ofExcept _) fun body => ?_
    exact overwrites_writeBytesAtomic env.faults (by simp [closedFiles]) _
  dsimp only
  split
  · exact preserves_bind (preserves_pure _) hrecord
  · exact preserves_bind (preserves_pure _) hrecord

theorem persistClosed_ok (hdir : IsPlain dir) {session : OpenSession U}
    (h : (persistClosed env dir session).exec d = (.ok (), d')) : HashCurrent env dir d' := by
  obtain ⟨_, m₁, -, h⟩ := exec_bind_eq_ok_iff.mp h
  obtain ⟨hash, m₂, hhash, h⟩ := exec_bind_eq_ok_iff.mp h
  obtain ⟨outcome, m₃, hconfig, h⟩ := exec_bind_eq_ok_iff.mp h
  have hsame := (sameDisk_contentHashHex _).exec_eq hhash
  have hsame' := (preserves_attempt (sameDisk_loadVaultConfigRaw env.faults env.codec dir)).exec_eq
    hconfig
  obtain ⟨headerBytes, indexBytes, hheader, hindex, rfl⟩ := contentHashHex_ok hhash
  have hfiles (path : PathBuf) : m₃.files path = m₁.files path :=
    (congrFun hsame'.1 path).trans (congrFun hsame.1 path)
  have hsave : ∃ displayName, (saveVaultPersistence env dir (persistenceClosed session.vaultId
      displayName (some ("sha256:" ++ env.crates.sha256Hex (headerBytes ++ indexBytes)))
      (env.timestamp m₃.calls))).exec m₃ = (.ok (), d') := by
    split at h
    · simp only [exec_bind, exec_pure, exec_get] at h
      exact ⟨_, h⟩
    · simp only [exec_bind, exec_pure, exec_get] at h
      exact ⟨_, h⟩
  obtain ⟨displayName, hsave⟩ := hsave
  exact hashCurrent_of_recorded hdir ((hfiles _).trans hheader) ((hfiles _).trans hindex) rfl hsave

end

end Upriv.Vault
