import Upriv.Config.VaultConfig.Documents

/-!
# What was saved is loaded

`save_vault_config_checked` loads the current configuration for the edit policy
and then writes the new one.  The writer and the loaders have checks of their
own, and not the same ones.
-/

namespace Upriv

open FallibleM

/-- `busy` is what `session_blocks_quiet` answers. -/
def refuseConfigSaveIfBusy (busy : Bool) (before after : VaultConfig) : Result Unit :=
  if !busy then .ok ()
  else
    match (quietTargetsChanged before after).head? with
    | some target => .error (.vaultConfigBusy target)
    | none => .ok ()

def saveVaultConfigChecked (faults : Faults) (codec : TomlCodec VaultConfig)
    (canonicalize : Canonicalize) (busy : Bool) (vaultDir : PathBuf) (after : VaultConfig) :
    FsM Unit := do
  let before ← loadVaultConfigRaw faults codec vaultDir
  ensure (after.vault.id = before.vault.id)
    (.vaultConfigInvalid (vaultConfigPath vaultDir)
      "changing [vault].id requires a migration flow; close vault and rename folder")
  FallibleM.ofExcept (refuseConfigSaveIfBusy busy before after)
  saveVaultConfig faults codec canonicalize vaultDir after

/-! ## The checks on both sides -/

theorem VaultConfig.normalized_written (config : VaultConfig) :
    config.written.normalized = config.normalized := by
  simp only [VaultConfig.normalized, VaultConfig.written, VaultSecurityMode.normalized_normalized]

/-- What the identity check asks of a document. -/
theorem validateIdentity_eq_ok_iff {path : PathBuf} {dirName : String} {document : VaultConfig} :
    validateIdentity path dirName document = .ok () ↔
      trim document.vault.id ≠ "" ∧ trim document.vault.displayName ≠ "" ∧
        document.vault.id = dirName := by
  unfold validateIdentity
  simp only [String.isEmpty_iff, ne_eq]
  by_cases hid : trim document.vault.id = ""
  · simp [hid]
  · by_cases hname : trim document.vault.displayName = ""
    · simp [hid, hname]
    · by_cases hdir : document.vault.id = dirName
      · subst hdir
        simp [hid, hname]
      · simp [hid, hname, hdir]

/-- The mount path, links resolved, stays out of the vault-root's own directory. -/
def MountOutsideRoot (canonicalize : Canonicalize) (dir : PathBuf) (path : String) : Prop :=
  isDefaultMount path = true ∨
    ∀ root, vaultRootForConfig dir = some root →
      isReservedUprivWorkspacePath canonicalize (trim path) root = false

section
variable {faults : Faults} {codec : TomlCodec VaultConfig} {canonicalize : Canonicalize}
  {busy : Bool} {dir : PathBuf} {after : VaultConfig} {d d' : Disk}

theorem isDefaultMount_normalize (path : String) :
    isDefaultMount (normalizeMountWorkspacePath path) = isDefaultMount path := by
  by_cases hdefault : isDefaultMount path = true
  · rw [normalizeMountWorkspacePath, if_pos hdefault, hdefault]
    decide
  · rw [normalizeMountWorkspacePath, if_neg hdefault, isDefaultMount, trim_trim]
    rfl

theorem validateMountWorkspacePath_root {path : String} {root : Option PathBuf}
    (hdefault : isDefaultMount path = false)
    (hsaved : validateMountWorkspacePath canonicalize path none = .ok ()) :
    (validateMountWorkspacePath canonicalize path root).isOk = true ↔
      root.any (isReservedUprivWorkspacePath canonicalize (trim path)) = false := by
  unfold validateMountWorkspacePath validateWorkspaceGlobalPath at hsaved ⊢
  rw [hdefault] at hsaved ⊢
  simp only [trim_trim, Bool.false_eq_true, ↓reduceIte, Option.any_none] at hsaved ⊢
  split at hsaved
  · rename_i hempty
    simp [isDefaultMount, hempty] at hdefault
  · rename_i hempty
    split at hsaved
    · cases hsaved
    · rename_i habsolute
      split at hsaved
      · cases hsaved
      · rename_i hreserved
        rw [if_neg hempty, if_neg habsolute, if_neg hreserved]
        cases root.any (isReservedUprivWorkspacePath canonicalize (trim path)) <;>
          simp [Except.isOk, Except.toBool]

/-- A mount path that the writer accepts, in the eyes of the loader. -/
theorem mountAccepted_iff (hsaved : validateMountWorkspacePath canonicalize
    after.mount.workspacePath none = .ok ()) :
    mountAccepted canonicalize dir after.normalized = true ↔
      MountOutsideRoot canonicalize dir after.mount.workspacePath := by
  rw [mountAccepted, MountOutsideRoot, VaultConfig.normalized]
  dsimp only
  by_cases hdefault : isDefaultMount after.mount.workspacePath = true
  · simp only [hdefault, true_or, iff_true]
    rw [validateMountWorkspacePath, isDefaultMount_normalize, if_pos hdefault]
    rfl
  · rw [Bool.not_eq_true] at hdefault
    have hthere : normalizeMountWorkspacePath after.mount.workspacePath =
        trim after.mount.workspacePath := by
      rw [normalizeMountWorkspacePath, hdefault]
      rfl
    have hdefault' : isDefaultMount (trim after.mount.workspacePath) = false := by
      rw [← hthere, isDefaultMount_normalize, hdefault]
    have hsaved' : validateMountWorkspacePath canonicalize
        (trim after.mount.workspacePath) none = .ok () := by
      rw [validateMountWorkspacePath, hdefault] at hsaved
      rw [validateMountWorkspacePath, hdefault', trim_trim]
      exact hsaved
    rw [hthere, validateMountWorkspacePath_root hdefault' hsaved', hdefault, trim_trim]
    cases vaultRootForConfig dir <;> simp

/-- What a successful save found, and what it wrote. -/
theorem saveVaultConfigChecked_ok
    (h : (saveVaultConfigChecked faults codec canonicalize busy dir after).exec d =
      (.ok (), d')) :
    trim after.vault.id ≠ "" ∧ after.vault.id = (fileName dir).getD "" ∧
      validateMountWorkspacePath canonicalize after.mount.workspacePath none = .ok () ∧
      configsOn codec d' dir = some after.written := by
  obtain ⟨before, m, hload, h⟩ := exec_bind_eq_ok_iff.mp h
  obtain ⟨hid, h⟩ := exec_ensure_bind_eq_ok_iff.mp h
  obtain ⟨_, -, hsave⟩ := exec_ofExcept_bind_eq_ok_iff.mp h
  obtain ⟨_, _, document, -, -, -, hdocument⟩ :=
    loadedOn_eq_some_iff.mp (loadVaultConfigRaw_ok hload)
  obtain ⟨hcheck, rfl⟩ := loadDocument_eq_some_iff.mp hdocument
  obtain ⟨hne, -, hdir⟩ := validateIdentity_eq_ok_iff.mp hcheck
  have hsame : after.vault.id = document.vault.id := hid
  refine ⟨by rwa [hsame], hsame.trans hdir, ?_, ?_⟩
  · obtain ⟨_, hbody, -⟩ := exec_ofExcept_bind_eq_ok_iff.mp hsave
    obtain ⟨_, hmount, -⟩ := except_bind_eq_ok.mp hbody
    cases hvalid : validateMountWorkspacePath canonicalize after.mount.workspacePath none with
    | error e =>
        rw [hvalid] at hmount
        cases hmount
    | ok u => rfl
  · obtain ⟨text, hfile, htext⟩ := saveVaultConfig_ok hsave
    rw [configsOn, hfile, Option.bind_some, decodeUtf8_utf8, Option.bind_some, htext]
    rfl

/-- The raw loader on a saved document. -/
theorem loadDocument_written (hid : trim after.vault.id ≠ "")
    (hdir : after.vault.id = (fileName dir).getD "") :
    loadDocument dir after.written =
      if trim after.vault.displayName = "" then none else some after.normalized := by
  have hcheck : validateIdentity (vaultConfigPath dir) ((fileName dir).getD "") after.written =
      .ok () ↔ trim after.vault.displayName ≠ "" := by
    rw [validateIdentity_eq_ok_iff]
    exact ⟨fun h => h.2.1, fun h => ⟨hid, h, hdir⟩⟩
  split
  · rename_i hempty
    rw [Option.eq_none_iff_forall_ne_some]
    intro config hload
    exact hcheck.mp (loadDocument_eq_some_iff.mp hload).1 hempty
  · rename_i hname
    exact loadDocument_eq_some_iff.mpr ⟨hcheck.mpr hname, after.normalized_written⟩

/-- A saved configuration is loaded again exactly when its name is not blank and its
mount path does not lead into the vault-root. -/
theorem saveVaultConfigChecked_loads_iff
    (h : (saveVaultConfigChecked faults codec canonicalize busy dir after).exec d =
      (.ok (), d')) :
    (((loadVaultConfigRaw noFaults codec dir).exec d').1 = .ok after.normalized ∧
        ∃ config, ((loadVaultConfig noFaults codec canonicalize dir).exec d').1 = .ok config) ↔
      trim after.vault.displayName ≠ "" ∧
        MountOutsideRoot canonicalize dir after.mount.workspacePath := by
  obtain ⟨hid, hdir, hsaved, hwritten⟩ := saveVaultConfigChecked_ok h
  have hloaded : loadedOn codec d' dir =
      if trim after.vault.displayName = "" then none else some after.normalized := by
    rw [loadedOn, loadRaw, hwritten, Option.bind_some, loadDocument_written hid hdir]
  rw [loadVaultConfigRaw_noFaults_iff, hloaded]
  simp only [loadVaultConfig_noFaults_iff, hloaded]
  by_cases hname : trim after.vault.displayName = ""
  · simp [hname]
  · simp [hname, mountAccepted_iff hsaved]

end

/-! ## A sample save -/

def notesVaultDir : PathBuf := "/home/user/root/.upriv/vaults/notes"

def notesBefore : VaultConfig := { vault := { id := "notes", displayName := "Notes" } }

def notesBeforeText : String := "[vault]\nid = \"notes\"\ndisplay_name = \"Notes\"\n"

def notesRenamed : VaultConfig := { vault := { id := "notes", displayName := "Diary" } }

def notesRenamedText : String := "[vault]\nid = \"notes\"\ndisplay_name = \"Diary\"\n"

def notesUnnamed : VaultConfig := { vault := { id := "notes", displayName := " " } }

def notesUnnamedText : String := "[vault]\nid = \"notes\"\ndisplay_name = \" \"\n"

def notesCodec : TomlCodec VaultConfig :=
  .ofTable [(notesBefore, notesBeforeText), (notesRenamed, notesRenamedText),
    (notesUnnamed, notesUnnamedText)] (by decide +kernel)

def notesConfigDisk : Disk where
  files path :=
    if path = vaultConfigPath notesVaultDir then some (utf8 notesBeforeText.toList) else none
  dirs := {notesVaultDir}
  calls := 0

def saveNotes (after : VaultConfig) : Result Unit × Disk :=
  (saveVaultConfigChecked noFaults notesCodec (fun _ => none) false notesVaultDir after).exec
    notesConfigDisk

theorem saveNotes_ok {after : VaultConfig} (hsaved : (saveNotes after).1 = .ok ()) :
    (saveVaultConfigChecked noFaults notesCodec (fun _ => none) false notesVaultDir after).exec
      notesConfigDisk = (.ok (), (saveNotes after).2) := by
  rw [← saveNotes]
  rcases hrun : saveNotes after with ⟨outcome, d'⟩
  rw [hrun] at hsaved
  rw [← hsaved]

theorem saveVaultConfigChecked_loads_iff_renamed :
    (saveNotes notesRenamed).1 = .ok () ∧
      ((((loadVaultConfigRaw noFaults notesCodec notesVaultDir).exec
            (saveNotes notesRenamed).2).1 = .ok notesRenamed.normalized ∧
          ∃ config, ((loadVaultConfig noFaults notesCodec (fun _ => none) notesVaultDir).exec
            (saveNotes notesRenamed).2).1 = .ok config) ↔
        trim notesRenamed.vault.displayName ≠ "" ∧
          MountOutsideRoot (fun _ => none) notesVaultDir notesRenamed.mount.workspacePath) := by
  have hsaved : (saveNotes notesRenamed).1 = .ok () := by decide +kernel
  exact ⟨hsaved, saveVaultConfigChecked_loads_iff (saveNotes_ok hsaved)⟩

/-- A blank name is saved, and the vault cannot be loaded any more. -/
theorem saveVaultConfigChecked_blankName :
    (saveNotes notesUnnamed).1 = .ok () ∧
      ∀ config, ((loadVaultConfigRaw noFaults notesCodec notesVaultDir).exec
        (saveNotes notesUnnamed).2).1 ≠ .ok config := by
  have hsaved : (saveNotes notesUnnamed).1 = .ok () := by decide +kernel
  refine ⟨hsaved, fun config hload => ?_⟩
  obtain ⟨hid, hdir, -, hwritten⟩ := saveVaultConfigChecked_ok (saveNotes_ok hsaved)
  rw [loadVaultConfigRaw_noFaults_iff, loadedOn, loadRaw, hwritten, Option.bind_some,
    loadDocument_written hid hdir, if_pos (by decide)] at hload
  cases hload

end Upriv
