import Upriv.Config.VaultConfig.Load
import Upriv.Fs.Frame

/-!
# The edit policy of `vault_config_save`

`config/edit_policy.rs`: the values of a configuration that must not change
while its vault is busy, and what a save writes.
-/

namespace Upriv

/-- Which quiet targets differ between two configurations. -/
def quietTargetsChanged (before after : VaultConfig) : List String :=
  (if before.vault.displayName ≠ after.vault.displayName then ["vault.display_name"] else []) ++
  (if before.vault.id ≠ after.vault.id then ["vault.id"] else []) ++
  (if before.mount.workspacePath ≠ after.mount.workspacePath then
    ["mount.workspace_path"] else []) ++
  (if before.storage.mode ≠ after.storage.mode then ["storage.mode"] else []) ++
  (if before.security.mode.normalized ≠ after.security.mode.normalized then
    ["security.mode"] else [])

/-- The values of the quiet targets. -/
structure QuietTargets where
  displayName : String
  id : String
  workspacePath : String
  storageMode : VaultStorageMode
  securityMode : VaultSecurityMode
  deriving DecidableEq, Repr

def VaultConfig.quietTargets (config : VaultConfig) : QuietTargets where
  displayName := config.vault.displayName
  id := config.vault.id
  workspacePath := config.mount.workspacePath
  storageMode := config.storage.mode
  securityMode := config.security.mode.normalized

theorem quietTargetsChanged_eq_nil {before after : VaultConfig} :
    quietTargetsChanged before after = [] ↔ after.quietTargets = before.quietTargets := by
  simp only [quietTargetsChanged, List.append_eq_nil_iff, VaultConfig.quietTargets,
    QuietTargets.mk.injEq]
  constructor
  · rintro ⟨⟨⟨⟨hname, hid⟩, hmount⟩, hstorage⟩, hsecurity⟩
    refine ⟨?_, ?_, ?_, ?_, ?_⟩ <;> by_contra hne <;> simp_all [eq_comm]
  · rintro ⟨hname, hid, hmount, hstorage, hsecurity⟩
    simp [hname, hid, hmount, hstorage, hsecurity]

/-! ## What is written and read again -/

/-- The document that a save writes. -/
def VaultConfig.written (config : VaultConfig) : VaultConfig :=
  { config with security := { config.security with mode := config.security.mode.normalized } }

@[simp] theorem VaultSecurityMode.normalized_normalized (mode : VaultSecurityMode) :
    mode.normalized.normalized = mode.normalized := by
  cases mode <;> rfl

theorem normalizeMountWorkspacePath_idem (path : String) :
    normalizeMountWorkspacePath (normalizeMountWorkspacePath path) =
      normalizeMountWorkspacePath path := by
  by_cases hdefault : isDefaultMount path = true
  · have hthere : normalizeMountWorkspacePath path = WORKSPACE_PATH_DEFAULT := if_pos hdefault
    rw [hthere]
    exact if_pos (by decide)
  · have hthere : normalizeMountWorkspacePath path = trim path := if_neg hdefault
    rw [hthere, normalizeMountWorkspacePath, isDefaultMount, trim_trim]
    exact if_neg hdefault

/-- What is on disk, as the loader gives it. -/
def VaultConfig.quietOnDisk (document : VaultConfig) : QuietTargets :=
  document.normalized.quietTargets

/-- A configuration with the quiet values of a loaded one is stored with the
values that the loaded one has on disk. -/
theorem quietOnDisk_written {document after : VaultConfig}
    (h : after.quietTargets = document.normalized.quietTargets) :
    after.written.quietOnDisk = document.quietOnDisk := by
  simp only [VaultConfig.quietTargets, QuietTargets.mk.injEq, VaultConfig.normalized] at h
  obtain ⟨hname, hid, hmount, hstorage, hsecurity⟩ := h
  simp only [VaultConfig.quietOnDisk, VaultConfig.quietTargets, VaultConfig.normalized,
    VaultConfig.written, QuietTargets.mk.injEq]
  refine ⟨hname, hid, ?_, hstorage, by simpa using hsecurity⟩
  rw [hmount, normalizeMountWorkspacePath_idem]

theorem isCommentBlock_append_ofList (cs ds : List Char) :
    IsCommentBlock (String.ofList cs ++ String.ofList ds) =
      ((((cs ++ ds).splitOn '\n').all fun line =>
          line.head?.all (· == '#') && line.all isCommentChar) &&
        (cs ++ ds).getLast?.all (· == '\n')) := by
  rw [← String.ofList_append, isCommentBlock_ofList]

theorem isCommentBlock_note :
    IsCommentBlock (VAULT_CONFIG_TOML_GROUPS_NOTE ++ "\n") = true := by
  delta VAULT_CONFIG_TOML_GROUPS_NOTE
  refine (isCommentBlock_append_ofList _ _).trans ?_
  decide +kernel

section
variable {faults : Faults} {codec : TomlCodec VaultConfig} {canonicalize : Canonicalize}

/-- After a successful save the file holds the written document. -/
theorem saveVaultConfig_ok {vaultDir : PathBuf} {config : VaultConfig} {d d' : Disk}
    (h : (saveVaultConfig faults codec canonicalize vaultDir config).exec d = (.ok (), d')) :
    ∃ text, d'.files (vaultConfigPath vaultDir) = some (utf8 text.toList) ∧
      codec.fromStr text = .ok config.written := by
  obtain ⟨body, hbody, hwrite⟩ := FallibleM.exec_ofExcept_bind_eq_ok_iff.mp h
  refine ⟨body, ?_, ?_⟩
  · rw [files_of_writeBytesAtomic_ok faults hwrite]
    exact Function.update_self _ _ _
  · obtain ⟨_, -, hserialize⟩ := except_bind_eq_ok.mp hbody
    rw [serializeVaultConfigTomlUnchecked] at hserialize
    dsimp only at hserialize
    split at hserialize
    · cases hserialize
    · rename_i text htext
      cases hserialize
      exact codec.fromStr_toStringPretty _ _ _ htext isCommentBlock_note

end

end Upriv
