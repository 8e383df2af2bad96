import Upriv.Contents.CreateSucceeds
import Upriv.Vault.Passwords

/-!
# Undisturbed creation

When the operating system refuses nothing, `create_vault` fails only for what it checks:
every step of it finds the directories that the steps before have made.
-/

namespace Upriv.Vault

open FallibleM Contents

/-! ## The directories of a vault -/

/-- The directories of a new vault. -/
def vaultFolders (dest : PathBuf) : List PathBuf :=
  [contentsDir dest, joinPath (contentsDir dest) INDEX_DIR_NAME,
    joinPath (contentsDir dest) DATA_DIR_NAME, joinPath dest "backups"]

section
variable {dest dir : PathBuf} {name : String}

theorem isPlain_vaultFolders {folder : PathBuf} (h : folder ∈ vaultFolders dest) :
    IsPlain folder := by
  simp only [vaultFolders, List.mem_cons, List.not_mem_nil, or_false] at h
  rcases h with rfl | rfl | rfl | rfl
  · exact isPlain_contentsDir dest
  · exact isPlain_indexDir _
  · exact isPlain_joinPath _ isName_DATA_DIR_NAME
  · exact isPlain_joinPath _ (by decide)

/-- On the way to a folder of the vault are the vault and its folders. -/
theorem mem_wayTo_vaultFolders (hdest : IsPlain dest) {folder other : PathBuf}
    (hfolder : folder ∈ vaultFolders dest) (hother : other ∈ wayTo folder) :
    other ∈ wayTo dest ∨ other ∈ vaultFolders dest := by
  obtain ⟨hplain, hbelow⟩ := mem_wayTo.mp hother
  have hcontents (h : Disk.Below other (contentsDir dest)) :
      other ∈ wayTo dest ∨ other ∈ vaultFolders dest := by
    rcases below_dir_of_below_joinPath hdest hplain (by decide) h with heq | hup
    · exact .inr (heq ▸ List.mem_cons_self)
    · exact .inl (mem_wayTo.mpr ⟨hplain, hup⟩)
  simp only [vaultFolders, List.mem_cons, List.not_mem_nil, or_false] at hfolder
  rcases hfolder with rfl | rfl | rfl | rfl
  · exact hcontents hbelow
  · rcases below_dir_of_below_joinPath (isPlain_contentsDir dest) hplain (by decide) hbelow
      with heq | hup
    · exact .inr (heq ▸ by simp [vaultFolders])
    · exact hcontents hup
  · rcases below_dir_of_below_joinPath (isPlain_contentsDir dest) hplain (by decide) hbelow
      with heq | hup
    · exact .inr (heq ▸ by simp [vaultFolders])
    · exact hcontents hup
  · rcases below_dir_of_below_joinPath hdest hplain (by decide) hbelow with heq | hup
    · exact .inr (heq ▸ by simp [vaultFolders])
    · exact .inl (mem_wayTo.mpr ⟨hplain, hup⟩)

theorem not_mem_vaultFolders (hname : '/' ∉ name.toList)
    (hother : name ∉ ["contents", INDEX_DIR_NAME, DATA_DIR_NAME, "backups"]) :
    joinPath dir name ∉ vaultFolders dest := by
  simp only [List.mem_cons, List.not_mem_nil, or_false, not_or] at hother
  simp only [vaultFolders, List.mem_cons, List.not_mem_nil, or_false, not_or]
  exact ⟨fun h => hother.1 (name_of_joinPath_eq hname (by decide) h),
    fun h => hother.2.1 (name_of_joinPath_eq hname (by decide) h),
    fun h => hother.2.2.1 (name_of_joinPath_eq hname (by decide) h),
    fun h => hother.2.2.2 (name_of_joinPath_eq hname (by decide) h)⟩

theorem storeFolders_vault (hdest : IsPlain dest) :
    StoreFolders (contentsDir dest) dest (vaultFolders dest) where
  plain folder hfolder := by
    rcases List.mem_cons.mp hfolder with rfl | hfolder
    · exact hdest
    · exact isPlain_vaultFolders hfolder
  ways _ hfolder _ hother := mem_wayTo_vaultFolders hdest hfolder hother
  self := by simp [vaultFolders]
  indexDir := by simp [vaultFolders]
  dataDir := by simp [vaultFolders]
  header := not_mem_vaultFolders (by decide) (by decide)
  index := not_mem_vaultFolders (by decide) (by decide)

theorem chunkPathOf_not_mem_vaultFolders {U : UuidCrate}
    (hhyphens : ∀ u, UuidCrate.isHyphenated (U.toString u).toList = true) (u : U.Uuid)
    (i : UInt32) : chunkPathOf U (contentsDir dest) u i ∉ vaultFolders dest := by
  have hsuffix : ∀ name ∈ ["contents", INDEX_DIR_NAME, DATA_DIR_NAME, "backups"],
      ¬ CHUNK_FILE_SUFFIX.toList <:+ name.toList := by decide
  refine not_mem_vaultFolders (isName_chunkFileName hhyphens u i).2 ?_
  exact fun hmem => hsuffix _ hmem (suffix_chunkFileName u i)

end

/-! ## The vault -/

section
variable {U : UuidCrate} {env : VaultEnv U} {root : VaultRoot} {config : VaultConfig}
  {password : Bytes} {preset : KdfUnlockPreset} {dest : PathBuf} {d : Disk}

/-- The record is a file of the vault directory itself. -/
theorem recordHash_succeeds (haccepting : Accepting env.crates password preset)
    (hdest : IsPlain dest) {present : List PathBuf} (vaultId displayName hash : String) :
    Succeeds (Filling dest (vaultFolders dest) present) (do
        let d ← get
        saveVaultPersistence { env with faults := noFaults } dest
          (persistenceClosed vaultId displayName (some hash) (env.timestamp d.calls)))
      fun _ => Filling dest (vaultFolders dest) (persistencePath dest :: present) := by
  refine Succeeds.get_bind fun d hd => ?_
  refine Succeeds.mono (P := Filling dest (vaultFolders dest) present) ?_ (fun s hs => hs ▸ hd)
    fun _ _ h => h
  obtain ⟨text, htext⟩ := haccepting.persistenceJson (persistenceClosed vaultId displayName
    (some hash) (env.timestamp d.calls))
  refine Succeeds.bind (Q := fun _ => Filling dest (vaultFolders dest) present)
    (Succeeds.ofExcept (a := text) (by rw [htext]; rfl) fun _ h => h) fun body => ?_
  exact writeFile_succeeds (storeFolders_vault hdest) List.mem_cons_self (by decide)
    (not_mem_vaultFolders (by decide) (by decide)) _

theorem fillDestination_succeeds (haccepting : Accepting env.crates password preset)
    (hdest : IsPlain dest)
    (hhyphens : ∀ u, UuidCrate.isHyphenated (U.toString u).toList = true)
    (hfaults : ∀ n fsCall, (env.draws n).chunkFaults fsCall = none)
    (hmount : validateMountWorkspacePath env.canonicalize config.mount.workspacePath none = .ok ())
    (hserializes : env.codec.Serializes config.written) :
    Succeeds (Filling dest (vaultFolders dest) [])
      (fillDestination { env with faults := noFaults } dest config password preset)
      fun _ => Filling dest (vaultFolders dest)
        [persistencePath dest, indexPath (contentsDir dest), headerPath (contentsDir dest)] := by
  have hconfig : Succeeds (Filling dest (vaultFolders dest) [])
      (saveVaultConfig noFaults env.codec env.canonicalize dest config)
      fun _ => Filling dest (vaultFolders dest) [] := by
    obtain ⟨text, htext⟩ := hserializes
    have hbody : serializeVaultConfigToml env.codec env.canonicalize config =
        .ok (VAULT_CONFIG_TOML_GROUPS_NOTE ++ "\n" ++ text) := by
      rw [serializeVaultConfigToml, hmount]
      change serializeVaultConfigTomlUnchecked env.codec config = _
      rw [serializeVaultConfigTomlUnchecked]
      dsimp only
      rw [← VaultConfig.written, htext]
    refine Succeeds.bind (Q := fun _ => Filling dest (vaultFolders dest) [])
      (Succeeds.ofExcept hbody fun _ h => h) fun body => ?_
    refine Succeeds.get_bind fun d hd => ?_
    have hparent : (parent (vaultConfigPath dest)).all d.isDir = true := by
      rw [vaultConfigPath, parent_joinPath hdest (by decide)]
      exact decide_eq_true (hd.way dest (mem_wayTo.mpr ⟨hdest, below_self dest⟩))
    rw [if_pos hparent]
    rintro s rfl
    have hcounted : Filling dest (vaultFolders dest) [] { s with calls := s.calls + 1 } :=
      ⟨hd.1, hd.2, hd.3⟩
    have hfile : vaultConfigPath dest ∉ vaultFolders dest :=
      not_mem_vaultFolders (by decide) (by decide)
    have hwritten := hcounted.write (utf8 body.toList) hfile
    exact ⟨(), _, rfl, hwritten.1, hwritten.2, fun _ hpath => absurd hpath List.not_mem_nil⟩
  refine hconfig.bind fun _ => ?_
  refine (createSeededStore_succeeds haccepting (storeFolders_vault hdest)
    (chunkPathOf_not_mem_vaultFolders hhyphens) hfaults).bind fun _ => ?_
  refine (createFolder_succeeds (storeFolders_vault hdest) (by simp [vaultFolders])).bind
    fun _ => ?_
  exact (contentHashHex_succeeds (by simp) (by simp)).bind fun hash =>
    recordHash_succeeds haccepting hdest _ _ hash

/-- Undisturbed, what a close writes can be written. -/
theorem persistClosed_succeeds (haccepting : Accepting env.crates password preset)
    (hdest : IsPlain dest) (session : OpenSession U) :
    Succeeds (Filling dest (vaultFolders dest) [headerPath (contentsDir dest)])
      (persistClosed { env with faults := noFaults } dest session) fun _ _ => True := by
  refine (saveSealedIndex_succeeds haccepting (storeFolders_vault hdest) session.header
    session.indexKey session.index).bind fun _ => ?_
  refine (contentHashHex_succeeds (by simp) (by simp)).bind fun hash => ?_
  refine (Succeeds.attempt (sameDisk_loadVaultConfigRaw noFaults env.codec dest)
    fun _ _ h hsame => h.of_sameDisk hsame).bind fun outcome => ?_
  cases outcome with
  | ok config =>
      exact (recordHash_succeeds haccepting hdest session.vaultId config.vault.displayName
        hash).mono (fun _ h => h) fun _ _ _ => trivial
  | error e =>
      exact (recordHash_succeeds haccepting hdest session.vaultId session.vaultId
        hash).mono (fun _ h => h) fun _ _ _ => trivial

/-- Undisturbed, with no file in the way of the new directories, the checks of `create_vault`
are all that can refuse it. -/
theorem createVault_fills (haccepting : Accepting env.crates password preset)
    (hhyphens : ∀ u, UuidCrate.isHyphenated (U.toString u).toList = true)
    (hfaults : ∀ n fsCall, (env.draws n).chunkFaults fsCall = none)
    (hpassword : password ≠ []) (hstorage : config.storageMode ≠ .uprivPlain)
    (haddr : root.vaultDir (trim config.vault.id) = .ok dest)
    (hmount : validateMountWorkspacePath env.canonicalize config.mount.workspacePath none = .ok ())
    (hserializes : env.codec.Serializes (trimmedId config).written)
    (hway : ∀ dir ∈ wayTo root.vaultsDir, d.files dir = none)
    (hnew : d.exists_ dest = false) (hfree : ∀ folder ∈ vaultFolders dest, d.files folder = none) :
    ∃ d', (createVault { env with faults := noFaults } root config password preset).exec d =
        (.ok (), d') ∧
      Filling dest (vaultFolders dest) [persistencePath dest, indexPath (contentsDir dest),
        headerPath (contentsDir dest)] d' := by
  have hdest := isPlain_vaultDir haddr
  obtain ⟨hname, hnamed⟩ := name_of_vaultDir haddr
  have hvaults := isPlain_vaultsDir root
  have hnotUp : dest ∉ wayTo root.vaultsDir := by
    intro hmem
    have hbelow := (mem_wayTo.mp hmem).2
    rw [below_iff_of_isPlain hdest, hnamed, toList_joinPath_of_isPlain hvaults] at hbelow
    rcases hbelow with heq | hprefix
    · have hlength := congrArg (fun path : PathBuf => path.toList.length) heq
      rw [toList_joinPath_of_isPlain hvaults] at hlength
      simp at hlength
    · have hlength := hprefix.length_le
      simp at hlength
  -- Nothing is in the way of the directories, and the destination is new.
  let Free (d : Disk) : Prop := (∀ dir ∈ wayTo root.vaultsDir, d.files dir = none) ∧
    d.exists_ dest = false ∧ ∀ folder ∈ vaultFolders dest, d.files folder = none
  have hmake : Succeeds Free (Upriv.createDirAll noFaults root.vaultsDir)
      fun _ d' => Free d' ∧ ∀ dir ∈ wayTo root.vaultsDir, dir ∈ d'.dirs := by
    refine createDirAll_succeeds (fun d h dir hdir => .inr (h.1 dir hdir)) ?_
    rintro d d' ⟨hway, hnew, hfree⟩ hsame hdirs
    rw [Disk.exists_, Bool.or_eq_false_iff, Disk.isFile, Disk.isDir] at hnew
    refine ⟨fun dir hdir => (congrFun hsame.1 dir).trans (hway dir hdir), ?_,
      fun folder hfolder => (congrFun hsame.1 folder).trans (hfree folder hfolder)⟩
    rw [Disk.exists_, Bool.or_eq_false_iff, Disk.isFile, Disk.isDir, hsame.1]
    refine ⟨hnew.1, decide_eq_false fun hmem => ?_⟩
    rcases hdirs dest hmem with hold | hup
    · exact of_decide_eq_false hnew.2 hold
    · exact hnotUp hup
  have hcreate : Succeeds (fun d => Free d ∧ ∀ dir ∈ wayTo root.vaultsDir, dir ∈ d.dirs)
      (createDestination { env with faults := noFaults } dest)
      fun _ => Filling dest (vaultFolders dest) [] := by
    rintro d ⟨⟨-, hnew, hfree⟩, hway⟩
    have hparent : (parent dest).all d.isDir = true := by
      rw [hnamed, parent_joinPath hvaults hname]
      exact decide_eq_true (hway _ (mem_wayTo.mpr ⟨hvaults, below_self _⟩))
    have hmade : (createDir noFaults dest).exec d =
        (.ok (), { d with calls := d.calls + 1 }.addDir dest) := by
      have hnew' : ({ d with calls := d.calls + 1 } : Disk).exists_ dest = false := hnew
      have hparent' : (parent dest).all ({ d with calls := d.calls + 1 } : Disk).isDir = true :=
        hparent
      simp only [createDir, sysCall, exec_op, noFaults, hnew', hparent', Bool.false_eq_true,
        ↓reduceIte]
    refine ⟨(), { d with calls := d.calls + 1 }.addDir dest, ?_, fun dir hdir => ?_, hfree,
      fun _ hpath => absurd hpath List.not_mem_nil⟩
    · rw [createDestination, exec_bind, exec_attempt, hmade]
      rfl
    · obtain ⟨hplain, hbelow⟩ := mem_wayTo.mp hdir
      rw [hnamed] at hbelow
      rcases below_dir_of_below_joinPath hvaults hplain hname.2 hbelow with heq | hup
      · rw [heq, ← hnamed]
        exact Finset.mem_insert_self _ _
      · exact Finset.mem_insert_of_mem (hway dir (mem_wayTo.mpr ⟨hplain, hup⟩))
  have hfill : Succeeds (Filling dest (vaultFolders dest) [])
      (fillOrRemove { env with faults := noFaults } dest (trimmedId config) password preset)
      fun _ => Filling dest (vaultFolders dest)
        [persistencePath dest, indexPath (contentsDir dest), headerPath (contentsDir dest)] := by
    intro d hd
    have hfills : Succeeds (Filling dest (vaultFolders dest) [])
        (fillDestination { env with faults := noFaults } dest (trimmedId config) password preset)
        fun _ => Filling dest (vaultFolders dest)
          [persistencePath dest, indexPath (contentsDir dest), headerPath (contentsDir dest)] :=
      fillDestination_succeeds haccepting hdest hhyphens hfaults hmount hserializes
    obtain ⟨_, d', hrun, hfilled⟩ := hfills d hd
    refine ⟨(), d', ?_, hfilled⟩
    rw [fillOrRemove, exec_bind, exec_attempt, hrun]
    rfl
  have hvault : Succeeds Free
      (createVault { env with faults := noFaults } root config password preset)
      fun _ => Filling dest (vaultFolders dest)
        [persistencePath dest, indexPath (contentsDir dest), headerPath (contentsDir dest)] := by
    refine (Succeeds.ensure hpassword).bind fun _ => (Succeeds.ensure hstorage).bind fun _ => ?_
    refine Succeeds.bind (Q := fun found d => found = dest ∧ Free d)
      (Succeeds.ofExcept haddr fun _ h => ⟨rfl, h⟩) fun found => ?_
    by_cases hfound : found = dest
    · subst hfound
      exact (hmake.mono (fun _ h => h.2) fun _ _ h => h).bind fun _ => hcreate.bind fun _ => hfill
    · exact fun d h => absurd h.1 hfound
  obtain ⟨_, d', hrun, hfilled⟩ := hvault d ⟨hway, hnew, hfree⟩
  exact ⟨d', hrun, hfilled⟩

/-- Undisturbed, `create_vault` succeeds exactly when there is a password, the storage is the
encrypted one, the id names a directory that does not exist, and the mount path is valid. -/
theorem createVault_ok_iff (haccepting : Accepting env.crates password preset)
    (hhyphens : ∀ u, UuidCrate.isHyphenated (U.toString u).toList = true)
    (hfaults : ∀ n fsCall, (env.draws n).chunkFaults fsCall = none)
    (hserializes : env.codec.Serializes (trimmedId config).written)
    (hway : ∀ dir ∈ wayTo root.vaultsDir, d.files dir = none)
    (hfree : ∀ dest, root.vaultDir (trim config.vault.id) = .ok dest →
      ∀ folder ∈ vaultFolders dest, d.files folder = none) :
    ((createVault { env with faults := noFaults } root config password preset).exec d).1 =
        .ok () ↔
      password ≠ [] ∧ config.storageMode ≠ .uprivPlain ∧
        (∃ dest, root.vaultDir (trim config.vault.id) = .ok dest ∧ d.exists_ dest = false) ∧
        validateMountWorkspacePath env.canonicalize config.mount.workspacePath none = .ok () := by
  constructor
  · intro hok
    obtain ⟨d', hrun⟩ := exists_exec_eq hok
    obtain ⟨dest, haddr, -⟩ := createVault_ok hrun
    obtain ⟨⟨hpassword, hstorage⟩, store, hcreated⟩ := createVault_created haddr hrun
    refine ⟨hpassword, hstorage, ⟨dest, haddr, ?_⟩, hcreated.mount⟩
    rw [createVault, exec_ensure_bind_eq_ok_iff] at hrun
    obtain ⟨-, hrun⟩ := hrun
    rw [exec_ensure_bind_eq_ok_iff] at hrun
    obtain ⟨-, hrun⟩ := hrun
    rw [exec_ofExcept_bind, haddr] at hrun
    dsimp only at hrun
    obtain ⟨_, m, hmake, hrun⟩ := exec_bind_eq_ok_iff.mp hrun
    obtain ⟨_, m', hnew, -⟩ := exec_bind_eq_ok_iff.mp hrun
    have hgrow : OnlyNewDirs d m := (preserves_createDirAll noFaults _).exec_eq hmake
    have hm := createDestination_ok hnew
    rw [Disk.exists_, Bool.or_eq_false_iff, Disk.isFile, Disk.isDir, hgrow.1] at hm
    rw [Disk.exists_, Bool.or_eq_false_iff, Disk.isFile, Disk.isDir]
    exact ⟨hm.1, decide_eq_false fun hmem => of_decide_eq_false hm.2 (hgrow.2 hmem)⟩
  · rintro ⟨hpassword, hstorage, ⟨dest, haddr, hnew⟩, hmount⟩
    obtain ⟨d', hrun, -⟩ := createVault_fills haccepting hhyphens hfaults hpassword hstorage haddr
      hmount hserializes hway hnew (hfree dest haddr)
    rw [hrun]

end

/-! ## A sample vault -/

/-- An environment that refuses nothing and writes every document. -/
def openEnv : VaultEnv UuidCrate.hyphenated :=
  { sampleEnv with crates := .everyDocument _ }

def emptyDisk : Disk := ⟨fun _ => none, ∅, 0⟩

theorem vaultDir_sample :
    sampleRoot.vaultDir (trim sampleConfig.vault.id) = .ok sampleVaultDir := by
  decide +kernel

theorem serializes_sample : openEnv.codec.Serializes (trimmedId sampleConfig).written := by
  have hsame : (trimmedId sampleConfig).written = sampleConfig := by decide +kernel
  rw [hsame]
  exact ⟨sampleConfigText, by simp [openEnv, sampleEnv, TomlCodec.ofTable]⟩

theorem createVault_ok_iff_sample :
    ((createVault { openEnv with faults := noFaults } sampleRoot sampleConfig [1] .m32).exec
        emptyDisk).1 = .ok () ↔
      ([1] : Bytes) ≠ [] ∧ sampleConfig.storageMode ≠ .uprivPlain ∧
        (∃ dest, sampleRoot.vaultDir (trim sampleConfig.vault.id) = .ok dest ∧
          emptyDisk.exists_ dest = false) ∧
        validateMountWorkspacePath openEnv.canonicalize sampleConfig.mount.workspacePath none =
          .ok () :=
  createVault_ok_iff (accepting_everyDocument _ _ _) isHyphenated_hyphenated (fun _ _ => rfl)
    serializes_sample (fun _ _ => rfl) fun _ _ _ _ => rfl

/-- The sample vault is created. -/
theorem createVault_sample :
    ∃ d, (createVault openEnv sampleRoot sampleConfig [1] .m32).exec emptyDisk = (.ok (), d) ∧
      Filling sampleVaultDir (vaultFolders sampleVaultDir)
        [persistencePath sampleVaultDir, indexPath (contentsDir sampleVaultDir),
          headerPath (contentsDir sampleVaultDir)] d := by
  have haccepting : Accepting openEnv.crates [1] .m32 := accepting_everyDocument _ _ _
  have hfills : ∃ d, (createVault { openEnv with faults := noFaults } sampleRoot sampleConfig [1]
      .m32).exec emptyDisk = (.ok (), d) ∧ Filling sampleVaultDir (vaultFolders sampleVaultDir)
        [persistencePath sampleVaultDir, indexPath (contentsDir sampleVaultDir),
          headerPath (contentsDir sampleVaultDir)] d :=
    createVault_fills haccepting isHyphenated_hyphenated (fun _ _ => rfl) (by decide) (by decide)
      vaultDir_sample (by decide +kernel) serializes_sample (fun _ _ => rfl) (by decide +kernel)
      fun _ _ => rfl
  exact hfills

end Upriv.Vault
