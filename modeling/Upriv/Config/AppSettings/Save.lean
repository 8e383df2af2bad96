import Upriv.Config.AppSettings.Load
import Upriv.Config.AppSettings.Serialize

/-!
# Saving the app settings

`config/app_settings/load_save.rs` and the writers of `paths/resolve.rs`.  A save
first brings the alias `.upriv-root` in line with the settings and then writes
`settings.toml`; nothing takes the alias back when that second write fails.
-/

namespace Upriv

open FallibleM

/-- What the operating system says about paths and the process, and the printer of the
toml crate. -/
structure SaveEnv extends SettingsEnv where
  /-- `Path::canonicalize`. -/
  canonicalize : PathBuf → Except IoError PathBuf
  userDataAppHome : Result PathBuf
  binaryDir : Result PathBuf
  toStringPretty : SettingsToml → Except String String

section
variable (env : SaveEnv) (faults : Faults)

def SaveEnv.canonicalComponents : Canonicalize := fun path =>
  (env.canonicalize path).toOption.map components

def sameDir (a b : PathBuf) : Bool :=
  if a = b then true
  else
    match env.canonicalize a, env.canonicalize b with
    | .ok ca, .ok cb => ca = cb
    | _, _ => a = b

/-! ## The alias -/

def VaultRoot.discover (path : PathBuf) : FsM VaultRoot := do
  let root ← FallibleM.ofExcept ((env.canonicalize path).mapError UprivError.io)
  validateExistingVaultRoot env.toml faults root
  return ⟨root⟩

def ensureUserDataAppHome : FsM PathBuf := do
  let path ← FallibleM.ofExcept env.userDataAppHome
  createDirAll faults path
  return path

/-- Write the alias as active. -/
def writeVaultRootAliasForRoot (home : PathBuf) (root : VaultRoot) : FsM Unit := do
  if env.userDataAppHome.toOption.any (sameDir env · home) then
    let _ ← ensureUserDataAppHome env faults
  else createDirAll faults home
  let contents ← FallibleM.ofExcept (aliasFileContents root.root true)
  writeAliasFileAtomic faults (vaultRootAliasPath home) contents

/-- In the app home, and beside the binary, where a failure is only reported. -/
def deactivateVaultRootAliasEverywhere : FsM Unit := do
  let home ← FallibleM.ofExcept env.appHomeDir
  deactivateVaultRootAlias faults home
  match env.binaryDir with
  | .error _ => return ()
  | .ok bin =>
    if !sameDir env bin home then
      let _ ← attempt (deactivateVaultRootAlias faults bin)

def syncAliasWithAppSettings (settings : AppSettings) : FsM Unit := do
  if settings.app.vaultRootMode = .defaultRoot then
    deactivateVaultRootAliasEverywhere env faults
  else
    let path := trim settings.app.uprivRootPath
    ensure (¬ path.isEmpty)
      (.io ⟨.invalidInput, "custom vault-root mode requires a non-empty upriv_root_path"⟩)
    let home ← FallibleM.ofExcept env.appHomeDir
    let root ← VaultRoot.discover env faults path
    writeVaultRootAliasForRoot env faults home root

/-! ## The settings -/

def writeSettingsTomlOnly (root : PathBuf) (settings : AppSettings) : FsM Unit := do
  let path := joinPath root VAULT_ROOT_SETTINGS_REL
  let d ← get
  let existing ←
    if d.isFile path then do
      let raw ← attempt (readToString faults path)
      pure raw.toOption
    else pure none
  let contents ← FallibleM.ofExcept
    (serializeSettingsTomlStr env.toml env.toStringPretty env.canonicalComponents settings existing)
  let d ← get
  -- A root whose `.upriv` was deleted is not made again.
  ensure (d.isDir (joinPath root UPRIV_DIR_NAME)) (.vaultRootNotFound path)
  writeBytesAtomicExistingParent faults path (utf8 contents.toList)

def saveAppSettingsWithAliasSync (root : PathBuf) (settings : AppSettings) (syncAlias : Bool) :
    FsM Unit := do
  FallibleM.ofExcept (validateWorkspaceGlobalPath env.canonicalComponents settings.workspace.path
    (some root))
  if syncAlias then syncAliasWithAppSettings env faults settings
  writeSettingsTomlOnly env faults root settings

end

/-! ## What a file says about the alias -/

/-- What the reader makes of the alias file of `home`: `none` without a file, then
`none` for one that is no text. -/
def Disk.aliasAt (d : Disk) (home : PathBuf) :
    Option (Option (Result (Option VaultRootAlias))) :=
  (d.files (vaultRootAliasPath home)).map fun bytes =>
    (decodeUtf8 bytes).map fun raw => (scanAlias raw).result (vaultRootAliasPath home)

/-- Reading alone turns this file off: an unknown status stands above a last line
`status=active`. -/
def ReadTurnsOff (d : Disk) (home : PathBuf) : Prop :=
  ∃ raw, AliasText home d raw ∧ none ∈ statuses (aliasLines raw) ∧ ReadsActive raw

/-- Path and flag of every alias are as they were. -/
def KeepsAliases (d d' : Disk) : Prop :=
  ∀ home, d'.aliasAt home = d.aliasAt home ∨ ReadTurnsOff d home

/-- The same files. -/
def SameFiles (d d' : Disk) : Prop := d'.files = d.files

instance : IsPreorder Disk SameFiles where
  refl _ := rfl
  trans _ _ _ h h' := h'.trans h

section
variable {env : SaveEnv} {faults : Faults} {home root path : PathBuf} {d d' : Disk}

theorem SameFiles.keepsAliases (h : SameFiles d d') : KeepsAliases d d' := by
  intro home
  rw [Disk.aliasAt, Disk.aliasAt, h]
  exact .inl rfl

theorem KeepsAliases.trans_sameFiles {m : Disk} (h : KeepsAliases d m) (h' : SameFiles m d') :
    KeepsAliases d d' := by
  intro home
  rw [Disk.aliasAt, h']
  exact h home

theorem aliasAt_of_text {raw : String} (h : AliasText home d raw) :
    d.aliasAt home = some (some ((scanAlias raw).result (vaultRootAliasPath home))) := by
  obtain ⟨bytes, hfile, hraw⟩ := h
  rw [Disk.aliasAt, hfile, Option.map_some, hraw, Option.map_some]

theorem aliasAt_of_contents {contents : String} {active : Bool} (htrim : trimEnd path = path)
    (hcontents : aliasFileContents path active = .ok contents)
    (hfile : d.files (vaultRootAliasPath home) = some (utf8 contents.toList)) :
    d.aliasAt home = some (some (.ok (some ⟨path, active⟩))) := by
  have habsolute := (pathAsAliasLine_eq_ok_iff.mp (aliasFileContents_eq_ok_iff.mp hcontents).1).2.1
  rw [aliasAt_of_text ⟨_, hfile, decodeUtf8_utf8 contents⟩, AliasScan.result,
    scanAlias_aliasFileContents hcontents, htrim]
  dsimp only
  rw [if_pos habsolute]
  rfl

theorem HealedAlias.keepsAliases {raw : String} (h : HealedAlias home (scanAlias raw) d d')
    (htext : AliasText home d raw) : KeepsAliases d d' := by
  rcases h with hsame | ⟨target, contents, htarget, hheal, hcontents, hnew⟩
  · exact SameFiles.keepsAliases hsame
  · intro other
    by_cases hpath : vaultRootAliasPath other = vaultRootAliasPath home
    · have htext' : AliasText other d raw := by rwa [AliasText, hpath]
      by_cases hactive : ReadsActive raw
      · exact .inr ⟨raw, htext', mem_statuses_of_heal hheal, hactive⟩
      · have hnew' : AliasText other d' contents := by
          rw [AliasText, hpath]
          exact aliasText_update home d.files contents hnew
        rw [aliasAt_of_text hnew', aliasAt_of_text htext',
          result_healed htarget hcontents hactive]
        exact .inl rfl
    · rw [Disk.aliasAt, Disk.aliasAt, hnew, Function.update_of_ne hpath]
      exact .inl rfl

/-- Reading writes nothing, or it heals the text that it has read. -/
theorem readVaultRootAlias_files :
    SameFiles d ((readVaultRootAlias faults home).exec d).2 ∨
      ∃ raw, AliasText home d raw ∧
        HealedAlias home (scanAlias raw) d ((readVaultRootAlias faults home).exec d).2 := by
  rcases hread : (readToString faults (vaultRootAliasPath home)).exec d with ⟨error | raw, m⟩
  · obtain ⟨r, hrun, -⟩ := readVaultRootAlias_of_error hread
    rw [hrun]
    exact .inl ((preserves_readToString faults _).exec_eq hread).1
  · have hcall : faults d.calls = none := by
      cases hfault : faults d.calls with
      | none => rfl
      | some error =>
          rw [exec_readToString_of_refused faults hfault] at hread
          cases hread
    obtain ⟨bytes, hfile, hraw⟩ := readToString_ok faults hread
    exact .inr ⟨raw, ⟨bytes, hfile, hraw⟩, (readVaultRootAlias_of_text hcall hfile hraw).2⟩

theorem readVaultRootAlias_keepsAliases :
    Preserves KeepsAliases (readVaultRootAlias faults home) := by
  intro d
  rcases @readVaultRootAlias_files faults home d with hsame | ⟨raw, htext, hhealed⟩
  · exact hsame.keepsAliases
  · exact hhealed.keepsAliases htext

theorem writeAliasFileAtomic_sameFiles (path : PathBuf) (contents : String) :
    PreservesOnError SameFiles (writeAliasFileAtomic faults path contents) := by
  intro d e d' h
  rcases files_writeBytesAtomic faults h with ⟨hok, -⟩ | hsame
  · cases hok
  · exact hsame

theorem deactivateVaultRootAlias_keepsAliases :
    PreservesOnError KeepsAliases (deactivateVaultRootAlias faults home) := by
  intro d e d' h
  rw [deactivateVaultRootAlias, exec_bind] at h
  rcases hread : (readVaultRootAlias faults home).exec d with ⟨error | found, m⟩
  · rw [hread] at h
    cases h
    exact readVaultRootAlias_keepsAliases.exec_eq hread
  · rw [hread] at h
    refine (readVaultRootAlias_keepsAliases.exec_eq hread).trans_sameFiles ?_
    cases found with
    | none => cases h
    | some found =>
        exact preservesOnError_bind (preserves_ofExcept _)
          (fun _ => writeAliasFileAtomic_sameFiles _ _) _ _ _ h

theorem validateExistingVaultRoot_sameFiles (toml : TomlCrate) (dir : PathBuf) :
    Preserves SameFiles (validateExistingVaultRoot toml faults dir) := by
  refine preserves_bind preserves_get fun d => ?_
  refine preserves_bind (preserves_ensure _ _) fun _ => ?_
  refine preserves_bind (preserves_ensure _ _) fun _ => ?_
  refine preserves_bind (preserves_ensure _ _) fun _ => ?_
  refine preserves_bind ((preserves_readToString faults _).mono fun _ _ h => h.1) fun raw => ?_
  refine preserves_bind (preserves_ensure _ _) fun _ => ?_
  split
  · exact preserves_throw _
  · exact preserves_ensure _ _

theorem discover_sameFiles (path : PathBuf) :
    Preserves SameFiles (VaultRoot.discover env faults path) := by
  refine preserves_bind (preserves_ofExcept _) fun root => ?_
  exact preserves_bind (validateExistingVaultRoot_sameFiles _ _) fun _ => preserves_pure _

theorem createDirAll_sameFiles (path : PathBuf) : Preserves SameFiles (createDirAll faults path) :=
  (preserves_createDirAll faults path).mono fun _ _ h => h.1

theorem writeVaultRootAliasForRoot_sameFiles (root : VaultRoot) :
    PreservesOnError SameFiles (writeVaultRootAliasForRoot env faults home root) := by
  have hwrite : PreservesOnError SameFiles (do
      let contents ← FallibleM.ofExcept (aliasFileContents root.root true)
      writeAliasFileAtomic faults (vaultRootAliasPath home) contents) :=
    preservesOnError_bind (preserves_ofExcept _) fun _ => writeAliasFileAtomic_sameFiles _ _
  unfold writeVaultRootAliasForRoot
  split
  · refine preservesOnError_bind ?_ fun _ => hwrite
    refine preserves_bind (preserves_ofExcept _) fun path => ?_
    exact preserves_bind (createDirAll_sameFiles path) fun _ => preserves_pure _
  · exact preservesOnError_bind (createDirAll_sameFiles home) fun _ => hwrite

theorem deactivateVaultRootAliasEverywhere_keepsAliases :
    PreservesOnError KeepsAliases (deactivateVaultRootAliasEverywhere env faults) := by
  intro d e d' h
  rw [deactivateVaultRootAliasEverywhere, exec_ofExcept_bind] at h
  cases hhome : env.appHomeDir with
  | error error =>
      rw [hhome] at h
      cases h
      exact SameFiles.keepsAliases rfl
  | ok home =>
      rw [hhome] at h
      refine preservesOnError_bind_of_succeeds deactivateVaultRootAlias_keepsAliases ?_ d e d' h
      -- Beside the binary nothing can fail.
      intro _ s
      split
      · exact ⟨(), rfl⟩
      · split
        · exact ⟨(), rfl⟩
        · exact ⟨(), rfl⟩

theorem syncAliasWithAppSettings_keepsAliases {settings : AppSettings} :
    PreservesOnError KeepsAliases (syncAliasWithAppSettings env faults settings) := by
  unfold syncAliasWithAppSettings
  split
  · exact deactivateVaultRootAliasEverywhere_keepsAliases
  · have hfiles : PreservesOnError SameFiles (do
        ensure (¬ (trim settings.app.uprivRootPath).isEmpty)
          (.io ⟨.invalidInput, "custom vault-root mode requires a non-empty upriv_root_path"⟩)
        let home ← FallibleM.ofExcept env.appHomeDir
        let root ← VaultRoot.discover env faults (trim settings.app.uprivRootPath)
        writeVaultRootAliasForRoot env faults home root) := by
      refine preservesOnError_bind (preserves_ensure _ _) fun _ => ?_
      refine preservesOnError_bind (preserves_ofExcept _) fun home => ?_
      refine preservesOnError_bind (discover_sameFiles _) fun root => ?_
      exact writeVaultRootAliasForRoot_sameFiles root
    exact fun d e d' h => (hfiles d e d' h).keepsAliases

theorem writeSettingsTomlOnly_sameFiles (settings : AppSettings) :
    PreservesOnError SameFiles (writeSettingsTomlOnly env faults root settings) := by
  have hwrite : ∀ existing, PreservesOnError SameFiles (do
      let contents ← FallibleM.ofExcept (serializeSettingsTomlStr env.toml env.toStringPretty
        env.canonicalComponents settings existing)
      let d ← get
      ensure (d.isDir (joinPath root UPRIV_DIR_NAME))
        (.vaultRootNotFound (joinPath root VAULT_ROOT_SETTINGS_REL))
      writeBytesAtomicExistingParent faults (joinPath root VAULT_ROOT_SETTINGS_REL)
        (utf8 contents.toList)) := by
    intro existing
    refine preservesOnError_bind (preserves_ofExcept _) fun contents => ?_
    refine preservesOnError_bind preserves_get fun d => ?_
    refine preservesOnError_bind (preserves_ensure _ _) fun _ => ?_
    exact fun d e d' h => (sameDisk_of_writeBytesAtomic_error faults _ _ _ _ h).1
  refine preservesOnError_bind preserves_get fun d => ?_
  dsimp only
  split
  · refine preservesOnError_bind (preserves_attempt ?_) fun raw =>
      preservesOnError_bind (preserves_pure _) hwrite
    exact (preserves_readToString faults _).mono fun _ _ h => h.1
  · exact preservesOnError_bind (preserves_pure _) hwrite

/-! ## The settings are not the alias -/

theorem settings_ne_alias (root home : PathBuf) :
    joinPath root VAULT_ROOT_SETTINGS_REL ≠ vaultRootAliasPath home := by
  intro hsame
  have hlast : (joinPath root VAULT_ROOT_SETTINGS_REL).toList.getLast? =
      (vaultRootAliasPath home).toList.getLast? := by
    rw [hsame]
  rw [vaultRootAliasPath, getLast?_joinPath root (by decide), getLast?_joinPath home (by decide)]
    at hlast
  exact absurd hlast (by decide)

theorem HealedAlias.sameAt {scan : AliasScan} (h : HealedAlias home scan d d')
    (hne : path ≠ vaultRootAliasPath home) : SameAt path d d' := by
  rcases h with hsame | ⟨_, _, -, -, -, hnew⟩
  · exact congrFun hsame path
  · rw [SameAt, hnew, Function.update_of_ne hne]

theorem readVaultRootAlias_sameAt (hne : path ≠ vaultRootAliasPath home) :
    Preserves (SameAt path) (readVaultRootAlias faults home) := by
  intro d
  rcases @readVaultRootAlias_files faults home d with hsame | ⟨raw, -, hhealed⟩
  · exact congrFun hsame path
  · exact hhealed.sameAt hne

theorem writeAliasFileAtomic_sameAt (hne : path ≠ vaultRootAliasPath home) (contents : String) :
    Preserves (SameAt path) (writeAliasFileAtomic faults (vaultRootAliasPath home) contents) := by
  intro d
  rcases hrun : (writeAliasFileAtomic faults (vaultRootAliasPath home) contents).exec d with ⟨r, m⟩
  rcases files_writeBytesAtomic faults hrun with ⟨-, hnew⟩ | hsame
  · rw [SameAt, hnew, Function.update_of_ne hne]
  · exact congrFun hsame path

theorem deactivateVaultRootAlias_sameAt (hne : path ≠ vaultRootAliasPath home) :
    Preserves (SameAt path) (deactivateVaultRootAlias faults home) := by
  refine preserves_bind (readVaultRootAlias_sameAt hne) fun found => ?_
  cases found with
  | none => exact preserves_pure _
  | some found =>
      exact preserves_bind (preserves_ofExcept _) fun _ => writeAliasFileAtomic_sameAt hne _

theorem writeVaultRootAliasForRoot_sameAt (hne : path ≠ vaultRootAliasPath home)
    (root : VaultRoot) :
    Preserves (SameAt path) (writeVaultRootAliasForRoot env faults home root) := by
  have hdirs : ∀ dir, Preserves (SameAt path) (createDirAll faults dir) :=
    fun dir => (createDirAll_sameFiles dir).mono fun _ _ h => congrFun h path
  have hwrite : Preserves (SameAt path) (do
      let contents ← FallibleM.ofExcept (aliasFileContents root.root true)
      writeAliasFileAtomic faults (vaultRootAliasPath home) contents) :=
    preserves_bind (preserves_ofExcept _) fun _ => writeAliasFileAtomic_sameAt hne _
  unfold writeVaultRootAliasForRoot
  split
  · refine preserves_bind ?_ fun _ => hwrite
    refine preserves_bind (preserves_ofExcept _) fun dir => ?_
    exact preserves_bind (hdirs dir) fun _ => preserves_pure _
  · exact preserves_bind (hdirs home) fun _ => hwrite

/-- The alias is brought in line without a write to settings. -/
theorem syncAliasWithAppSettings_sameAt (settings : AppSettings) (root : PathBuf) :
    Preserves (SameAt (joinPath root VAULT_ROOT_SETTINGS_REL))
      (syncAliasWithAppSettings env faults settings) := by
  have hne : ∀ home, joinPath root VAULT_ROOT_SETTINGS_REL ≠ vaultRootAliasPath home :=
    settings_ne_alias root
  unfold syncAliasWithAppSettings
  split
  · refine preserves_bind (preserves_ofExcept _) fun home => ?_
    refine preserves_bind (deactivateVaultRootAlias_sameAt (hne home)) fun _ => ?_
    split
    · exact preserves_pure _
    · rename_i bin _
      split
      · refine preserves_bind (preserves_attempt ?_) fun _ => preserves_pure _
        exact deactivateVaultRootAlias_sameAt (hne bin)
      · exact preserves_pure _
  · refine preserves_bind (preserves_ensure _ _) fun _ => ?_
    refine preserves_bind (preserves_ofExcept _) fun home => ?_
    refine preserves_bind ((discover_sameFiles _).mono fun _ _ h => congrFun h _) fun target => ?_
    exact writeVaultRootAliasForRoot_sameAt (hne home) target

/-! ## A save that fails -/

/-- A failed save has not written the settings of the root, and has changed no alias
either, unless it failed after the alias had been brought in line. -/
theorem saveAppSettings_failed {settings : AppSettings} {syncAlias : Bool} {e : UprivError}
    (h : (saveAppSettingsWithAliasSync env faults root settings syncAlias).exec d =
      (.error e, d')) :
    SameAt (joinPath root VAULT_ROOT_SETTINGS_REL) d d' ∧
      (KeepsAliases d d' ∨
        syncAlias = true ∧ ∃ m,
          (syncAliasWithAppSettings env faults settings).exec d = (.ok (), m) ∧
          (writeSettingsTomlOnly env faults root settings).exec m = (.error e, d') ∧
          SameFiles m d') := by
  rw [saveAppSettingsWithAliasSync, exec_ofExcept_bind] at h
  split at h
  · cases syncAlias with
    | false =>
        have hsame := writeSettingsTomlOnly_sameFiles settings d e d' h
        exact ⟨congrFun hsame _, .inl hsame.keepsAliases⟩
    | true =>
        have hkept := @syncAliasWithAppSettings_sameAt env faults settings root d
        rcases hsync : (syncAliasWithAppSettings env faults settings).exec d with ⟨error | _, m⟩
        · rw [hsync] at hkept
          rw [if_pos rfl, exec_bind_of_error hsync] at h
          cases h
          exact ⟨hkept, .inl (syncAliasWithAppSettings_keepsAliases d e d' hsync)⟩
        · rw [hsync] at hkept
          rw [if_pos rfl, exec_bind_of_ok hsync] at h
          have hsame := writeSettingsTomlOnly_sameFiles settings m e d' h
          exact ⟨(congrFun hsame _).trans hkept, .inr ⟨rfl, m, rfl, h, hsame⟩⟩
  · cases h
    exact ⟨rfl, .inl (SameFiles.keepsAliases rfl)⟩

/-- A root without `.upriv` is not written to. -/
theorem writeSettingsTomlOnly_of_removed (settings : AppSettings)
    (hfile : d.isFile (joinPath root VAULT_ROOT_SETTINGS_REL) = false)
    (hdir : d.isDir (joinPath root UPRIV_DIR_NAME) = false) :
    ∃ e, (writeSettingsTomlOnly env faults root settings).exec d = (.error e, d) := by
  rw [writeSettingsTomlOnly, exec_bind, exec_get]
  dsimp only
  rw [hfile, if_neg Bool.false_ne_true, pure_bind, exec_ofExcept_bind]
  split
  · rw [exec_bind, exec_get]
    dsimp only
    rw [hdir]
    exact ⟨_, rfl⟩
  · exact ⟨_, rfl⟩

/-- Deactivating a file that the program has written. -/
theorem deactivateVaultRootAlias_of_contents {target : PathBuf} {active : Bool}
    {contents inactive : String} (htrim : trimEnd target = target)
    (hcontents : aliasFileContents target active = .ok contents)
    (hinactive : aliasFileContents target false = .ok inactive) (hhome : IsPlain home)
    (hdirs : ∀ dir ∈ wayTo home, dir ∈ d.dirs)
    (hfile : d.files (vaultRootAliasPath home) = some (utf8 contents.toList)) :
    ∃ d', (deactivateVaultRootAlias noFaults home).exec d = (.ok (), d') ∧ d'.dirs = d.dirs ∧
      d'.files =
        Function.update d.files (vaultRootAliasPath home) (some (utf8 inactive.toList)) := by
  have habsolute := (pathAsAliasLine_eq_ok_iff.mp (aliasFileContents_eq_ok_iff.mp hcontents).1).2.1
  have hread : (readVaultRootAlias noFaults home).exec d =
      (.ok (some ⟨target, active⟩), { d with calls := d.calls + 1 }) := by
    have hattempt : (attempt (readToString noFaults (vaultRootAliasPath home))).exec d =
        (.ok (.ok contents), { d with calls := d.calls + 1 }) := by
      rw [exec_attempt, exec_readToString noFaults rfl hfile (decodeUtf8_utf8 contents)]
    rw [readVaultRootAlias]
    dsimp only
    rw [exec_bind_of_ok hattempt]
    dsimp only
    rw [scanAlias_aliasFileContents hcontents, htrim]
    simp only [ensure, habsolute, ↓reduceIte, pure_bind, Bool.false_eq_true]
    rfl
  refine ⟨{ d.write (vaultRootAliasPath home) (some (utf8 inactive.toList)) with
    calls := d.calls + 2 }, ?_, rfl, rfl⟩
  rw [deactivateVaultRootAlias, exec_bind_of_ok hread]
  dsimp only
  rw [hinactive, exec_ofExcept_bind]
  dsimp only
  rw [writeAliasFileAtomic, writeBytesAtomic, vaultRootAliasPath,
    parent_joinPath hhome (by decide)]
  dsimp only
  have hdirs' : ∀ dir ∈ wayTo home, dir ∈ ({ d with calls := d.calls + 1 } : Disk).dirs := hdirs
  rw [exec_bind_of_ok (createDirAll_of_present noFaults hdirs')]
  rfl

end

/-! ## A root whose `.upriv` is gone -/

/-- The document that the crate prints for the default settings. -/
def defaultDocument : String :=
  "[package]\nversion = 1\nlabel = \"Upriv\"\nvaults_dir = \".upriv/vaults\"\n" ++
  "state_file = \".upriv/state.json\"\nlogs_dir = \".upriv/logs\"\napp_dir = \".upriv/app\"\n" ++
  "\n[ui]\nlocale = \"en\"\ntheme = \"dark\"\nshow_header_more_button = true\n" ++
  "file_manager_dock_expanded = false\nalways_show_hidden_vaults = false\n" ++
  "vault_list_sort = \"order\"\nvault_list_sort_direction = \"asc\"\n" ++
  "vault_list_view = \"default\"\nvault_list_search = \"\"\nvault_list_show_drag = true\n" ++
  "vault_list_allow_drag_into_group = true\nvault_list_show_create_button = true\n" ++
  "vault_list_show_search_button = true\nvault_list_show_sort_button = true\n" ++
  "vault_list_show_view_button = true\nvault_list_show_vault_more_button = true\n" ++
  "vault_list_show_vault_settings_button = true\n" ++
  "vault_list_show_group_settings_button = true\n" ++
  "lifecycle_close_modal_on_submit = false\n" ++
  "\n[logging]\nenabled = true\nlevel = \"info\"\nentries_per_file = 1000\n" ++
  "keep_last_entries = 10000\n\n[app]\nlast_opened_vault = \"\"\n\n[workspace]\npath = \"\"\n"

def sampleSaveEnv : SaveEnv where
  toSettingsEnv := sampleSettingsEnv packageText packageEntries
  canonicalize path := .ok path
  userDataAppHome := .ok "/home/user/app"
  binaryDir := .ok "/home/user/app"
  toStringPretty _ := .ok defaultDocument

def defaultSettings : AppSettings where
  ui := uiSettingsFromToml {}
  logging := ⟨true, "info", 1000, 10000⟩
  app := ⟨.defaultRoot, "", ""⟩
  workspace := ⟨""⟩

/-- The app home holds only this alias file. -/
def appHomeDisk (contents : String) : Disk where
  files path :=
    if path = vaultRootAliasPath "/home/user/app" then some (utf8 contents.toList) else none
  dirs := {"/home", "/home/user", "/home/user/app"}
  calls := 0

/-- The save deactivates the alias and then finds no `.upriv` in the root. -/
theorem exec_saveAppSettings_removed {contents inactive : String}
    (hcontents : aliasFileContents "/media/disk" true = .ok contents)
    (hinactive : aliasFileContents "/media/disk" false = .ok inactive) :
    ∃ e d', (saveAppSettingsWithAliasSync sampleSaveEnv noFaults "/home/user/root" defaultSettings
        true).exec (appHomeDisk contents) = (.error e, d') ∧
      d'.files (vaultRootAliasPath "/home/user/app") = some (utf8 inactive.toList) := by
  have hway : ∀ dir ∈ wayTo "/home/user/app",
      dir ∈ ({"/home", "/home/user", "/home/user/app"} : Finset PathBuf) := by
    decide +kernel
  have hremoved : joinPath "/home/user/root" UPRIV_DIR_NAME ∉
      ({"/home", "/home/user", "/home/user/app"} : Finset PathBuf) := by
    decide +kernel
  obtain ⟨m, hrun, hdirs, hfiles⟩ := @deactivateVaultRootAlias_of_contents "/home/user/app"
    (appHomeDisk contents) _ _ _ _ (by decide) hcontents hinactive (by decide) hway
    (by simp [appHomeDisk])
  have hsync : (syncAliasWithAppSettings sampleSaveEnv noFaults defaultSettings).exec
      (appHomeDisk contents) = (.ok (), m) := by
    rw [syncAliasWithAppSettings,
      if_pos (show defaultSettings.app.vaultRootMode = .defaultRoot from rfl),
      deactivateVaultRootAliasEverywhere, exec_ofExcept_bind]
    exact exec_bind_of_ok hrun _
  have hmissing : m.isFile (joinPath "/home/user/root" VAULT_ROOT_SETTINGS_REL) = false := by
    rw [Disk.isFile, hfiles, Function.update_of_ne (settings_ne_alias _ _), appHomeDisk]
    dsimp only
    rw [if_neg (settings_ne_alias _ _)]
    rfl
  have hgone : m.isDir (joinPath "/home/user/root" UPRIV_DIR_NAME) = false := by
    rw [Disk.isDir, hdirs]
    exact decide_eq_false hremoved
  obtain ⟨e, hwrite⟩ := @writeSettingsTomlOnly_of_removed sampleSaveEnv noFaults _ _
    defaultSettings hmissing hgone
  refine ⟨e, m, ?_, by rw [hfiles, Function.update_self]⟩
  rw [saveAppSettingsWithAliasSync, exec_ofExcept_bind]
  exact (exec_bind_of_ok hsync _).trans hwrite

theorem aliasFileContents_sample (active : Bool) :
    ∃ contents, aliasFileContents "/media/disk" active = .ok contents :=
  ⟨_, aliasFileContents_eq_ok_iff.mpr
    ⟨pathAsAliasLine_eq_ok_iff.mpr ⟨rfl, by decide, by decide, by decide⟩, rfl⟩⟩

theorem saveAppSettings_failed_removed :
    ∃ contents e d', aliasFileContents "/media/disk" true = .ok contents ∧
      SameAt (joinPath "/home/user/root" VAULT_ROOT_SETTINGS_REL) (appHomeDisk contents) d' ∧
      (KeepsAliases (appHomeDisk contents) d' ∨
        true = true ∧ ∃ m,
          (syncAliasWithAppSettings sampleSaveEnv noFaults defaultSettings).exec
            (appHomeDisk contents) = (.ok (), m) ∧
          (writeSettingsTomlOnly sampleSaveEnv noFaults "/home/user/root" defaultSettings).exec m =
            (.error e, d') ∧
          SameFiles m d') := by
  obtain ⟨contents, hcontents⟩ := aliasFileContents_sample true
  obtain ⟨inactive, hinactive⟩ := aliasFileContents_sample false
  obtain ⟨e, d', hrun, -⟩ := exec_saveAppSettings_removed hcontents hinactive
  exact ⟨contents, e, d', hcontents, saveAppSettings_failed hrun⟩

/-- The save is reported as failed, and the alias that was active is not any more. -/
theorem saveAppSettings_failed_alias_off :
    ∃ contents e d', aliasFileContents "/media/disk" true = .ok contents ∧
      (saveAppSettingsWithAliasSync sampleSaveEnv noFaults "/home/user/root" defaultSettings
        true).exec (appHomeDisk contents) = (.error e, d') ∧
      (appHomeDisk contents).aliasAt "/home/user/app" =
        some (some (.ok (some ⟨"/media/disk", true⟩))) ∧
      d'.aliasAt "/home/user/app" = some (some (.ok (some ⟨"/media/disk", false⟩))) := by
  obtain ⟨contents, hcontents⟩ := aliasFileContents_sample true
  obtain ⟨inactive, hinactive⟩ := aliasFileContents_sample false
  obtain ⟨e, d', hrun, hfile⟩ := exec_saveAppSettings_removed hcontents hinactive
  refine ⟨contents, e, d', hcontents, hrun, ?_, ?_⟩
  · exact aliasAt_of_contents (by decide) hcontents (by simp [appHomeDisk])
  · exact aliasAt_of_contents (by decide) hinactive hfile

end Upriv
