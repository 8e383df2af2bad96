import Upriv.Config.VaultConfig.Types
import Upriv.Crates.Toml
import Upriv.Fs.Disk

/-!
# Loading and saving `config.toml`

`config/vault_config/mod.rs`.  The raw load checks the identity section; the
full load checks the mount path against the vault-root as well.
-/

namespace Upriv

def CONFIG_FILE_NAME : String := "config.toml"

/-- Comment prepended when writing `vaults/<id>/config.toml`. -/
def VAULT_CONFIG_TOML_GROUPS_NOTE : String :=
  "# Group membership is not here. If this vault is in a group, see .upriv/vault_groups.toml.\n"

def vaultConfigPath (vaultDir : PathBuf) : PathBuf := joinPath vaultDir CONFIG_FILE_NAME

/-- The vault-root of `…/.upriv/vaults/<id>`. -/
def vaultRootForConfig (vaultDir : PathBuf) : Option PathBuf := do
  let vaults ← parent vaultDir
  let upriv ← parent vaults
  let root ← parent upriv
  let vaultsName ← fileName vaults
  let uprivName ← fileName upriv
  if !eqIgnoreAsciiCase vaultsName "vaults" then none
  else if !eqIgnoreAsciiCase uprivName ".upriv" then none
  else some root

def mapMountValidateError (path : PathBuf) : UprivError → UprivError
  | .workspacePathInvalid p detail =>
      .vaultConfigInvalid path ("[mount].workspace_path (" ++ p ++ "): " ++ detail)
  | .workspacePathReserved p =>
      .vaultConfigInvalid path ("[mount].workspace_path reserved: " ++ p)
  | other => other

/-- The checks of `load_vault_config_raw` on a parsed document. -/
def validateIdentity (path : PathBuf) (dirName : String) (parsed : VaultConfig) :
    Result Unit :=
  if (trim parsed.vault.id).isEmpty then
    .error (.vaultConfigInvalid path "[vault].id is empty")
  else if (trim parsed.vault.displayName).isEmpty then
    .error (.vaultConfigInvalid path "[vault].display_name is empty")
  else if parsed.vault.id ≠ dirName then
    .error (.vaultConfigInvalid path
      ("[vault].id (" ++ parsed.vault.id ++ ") must match directory name (" ++
        dirName ++ ")"))
  else .ok ()

/-- Legacy values are rewritten on load. -/
def VaultConfig.normalized (parsed : VaultConfig) : VaultConfig :=
  { parsed with
    mount := ⟨normalizeMountWorkspacePath parsed.mount.workspacePath⟩
    security := { parsed.security with mode := parsed.security.mode.normalized } }

section
variable (faults : Faults) (codec : TomlCodec VaultConfig) (canonicalize : Canonicalize)

def loadVaultConfigRaw (vaultDir : PathBuf) : FsM VaultConfig := do
  let path := vaultConfigPath vaultDir
  let d ← get
  FallibleM.ensure (d.isFile path) (.vaultConfigInvalid path "missing config.toml")
  let raw ← readToString faults path
  match codec.fromStr raw with
  | .error error =>
      throw (.vaultConfigInvalid path ("invalid config.toml: " ++ error))
  | .ok parsed =>
      FallibleM.ofExcept (validateIdentity path ((fileName vaultDir).getD "") parsed)
      return parsed.normalized

def loadVaultConfig (vaultDir : PathBuf) : FsM VaultConfig := do
  let path := vaultConfigPath vaultDir
  let config ← loadVaultConfigRaw faults codec vaultDir
  FallibleM.ofExcept ((validateMountWorkspacePath canonicalize
    config.mount.workspacePath (vaultRootForConfig vaultDir)).mapError
      (mapMountValidateError path))
  return config

def serializeVaultConfigTomlUnchecked (config : VaultConfig) : Result String :=
  let config := { config with
    security := { config.security with mode := config.security.mode.normalized } }
  match codec.toStringPretty config with
  | .error error =>
      .error (.vaultConfigInvalid "config.toml" ("serialize config.toml: " ++ error))
  | .ok body => .ok (VAULT_CONFIG_TOML_GROUPS_NOTE ++ "\n" ++ body)

def serializeVaultConfigToml (config : VaultConfig) : Result String := do
  (validateMountWorkspacePath canonicalize config.mount.workspacePath none).mapError
    (mapMountValidateError "config.toml")
  serializeVaultConfigTomlUnchecked codec config

def saveVaultConfig (vaultDir : PathBuf) (config : VaultConfig) : FsM Unit := do
  let path := vaultConfigPath vaultDir
  let body ← FallibleM.ofExcept (serializeVaultConfigToml codec canonicalize config)
  writeBytesAtomicExistingParent faults path (utf8 body.toList)

/-- Whether the flag changed. -/
def setVaultHidden (vaultDir : PathBuf) (hidden : Bool) : FsM Bool := do
  let config ← loadVaultConfigRaw faults codec vaultDir
  if config.vault.hidden = hidden then return false
  let config := { config with vault := { config.vault with hidden := hidden } }
  let path := vaultConfigPath vaultDir
  let body ← FallibleM.ofExcept (serializeVaultConfigTomlUnchecked codec config)
  writeBytesAtomicExistingParent faults path (utf8 body.toList)
  return true

end

end Upriv
