import Upriv.Crates.Serde
import Upriv.Fs.Frame
import Upriv.Paths.VaultRoot

/-!
# The marker of a vault-root

`paths/init.rs`: what makes a directory a valid vault-root.
-/

namespace Upriv

open FallibleM

def VAULT_ROOT_SETTINGS_REL : String := ".upriv/settings.toml"

structure PackageTomlRequired where
  vaultsDir : String

/-- Minimal TOML shape required for a usable vault-root marker. -/
structure SettingsTomlRequired where
  package : PackageTomlRequired

section
variable (toml : TomlCrate)

def PackageTomlRequired.deserialize (value : TomlValue) : Option PackageTomlRequired := do
  let fields ← toml.fields value
  PackageTomlRequired.mk <$> fields.read TomlScalar.decode 0 "vaults_dir" none

def SettingsTomlRequired.deserialize (value : TomlValue) : Option SettingsTomlRequired := do
  let fields ← toml.fields value
  SettingsTomlRequired.mk <$>
    fields.read (PackageTomlRequired.deserialize toml) 0 "package" none

def validateExistingVaultRoot (faults : Faults) (dir : PathBuf) : FsM Unit := do
  let upriv := joinPath dir UPRIV_DIR_NAME
  let d ← get
  ensure (d.exists_ upriv) (.vaultRootNotFound (joinPath dir VAULT_ROOT_SETTINGS_REL))
  ensure (d.isDir upriv)
    (.vaultRootIncomplete upriv ".upriv exists but is not a directory")
  let settings := joinPath dir VAULT_ROOT_SETTINGS_REL
  ensure (d.isFile settings)
    (.vaultRootIncomplete settings "missing .upriv/settings.toml")
  let raw ← readToString faults settings
  let trimmed := trim raw
  ensure (¬ trimmed.isEmpty)
    (.vaultRootIncomplete settings ".upriv/settings.toml is empty")
  match toml.fromStr "SettingsTomlRequired" (SettingsTomlRequired.deserialize toml) trimmed with
  | .error error =>
      throw (.vaultRootIncomplete settings
        (".upriv/settings.toml is not valid TOML: " ++ error))
  | .ok parsed =>
      ensure (¬ (trim parsed.package.vaultsDir).isEmpty)
        (.vaultRootIncomplete settings ".upriv/settings.toml [package].vaults_dir is empty")

end

/-! ## What a valid root has -/

/-- The marker of `dir` is complete, and this is the text of its settings. -/
structure ValidMarker (toml : TomlCrate) (d : Disk) (dir : PathBuf) (raw : String) : Prop where
  isDir : d.isDir (joinPath dir UPRIV_DIR_NAME) = true
  text : (d.files (joinPath dir VAULT_ROOT_SETTINGS_REL)).bind decodeUtf8 = some raw
  nonempty : (trim raw).isEmpty = false
  required : ∃ parsed, toml.fromStr "SettingsTomlRequired"
    (SettingsTomlRequired.deserialize toml) (trim raw) = .ok parsed ∧
      (trim parsed.package.vaultsDir).isEmpty = false

section
variable {toml : TomlCrate} {faults : Faults} {dir : PathBuf} {raw : String} {d d' : Disk}

theorem validateExistingVaultRoot_ok
    (h : (validateExistingVaultRoot toml faults dir).exec d = (.ok (), d')) :
    ∃ raw, ValidMarker toml d dir raw := by
  obtain ⟨d₀, m, hget, h⟩ := exec_bind_eq_ok_iff.mp h
  cases hget
  obtain ⟨-, h⟩ := exec_ensure_bind_eq_ok_iff.mp h
  obtain ⟨hdir, h⟩ := exec_ensure_bind_eq_ok_iff.mp h
  obtain ⟨-, h⟩ := exec_ensure_bind_eq_ok_iff.mp h
  obtain ⟨raw, m, hread, h⟩ := exec_bind_eq_ok_iff.mp h
  obtain ⟨hnonempty, h⟩ := exec_ensure_bind_eq_ok_iff.mp h
  obtain ⟨bytes, hfile, htext⟩ := readToString_ok faults hread
  refine ⟨raw, hdir, ?_, by simpa using hnonempty, ?_⟩
  · rw [hfile, Option.bind_some, htext]
  · split at h
    · cases h
    · rename_i parsed hparsed
      refine ⟨parsed, hparsed, ?_⟩
      by_contra hempty
      rw [ensure, if_neg (by simpa using hempty)] at h
      cases h

theorem ValidMarker.of_sameDisk (h : ValidMarker toml d dir raw) (hsame : SameDisk d d') :
    ValidMarker toml d' dir raw where
  isDir := by
    rw [Disk.isDir, hsame.2]
    exact h.isDir
  text := by
    rw [hsame.1]
    exact h.text
  nonempty := h.nonempty
  required := h.required

/-- A complete marker is found complete, or a system call is refused. -/
theorem ValidMarker.exec_validate (h : ValidMarker toml d dir raw) :
    (validateExistingVaultRoot toml faults dir).exec d =
      (match faults d.calls with
        | none => .ok ()
        | some error => .error (.io error), { d with calls := d.calls + 1 }) := by
  obtain ⟨bytes, hbytes, htext⟩ := Option.bind_eq_some_iff.mp h.text
  obtain ⟨parsed, hparsed, hvaultsDir⟩ := h.required
  have hexists : d.exists_ (joinPath dir UPRIV_DIR_NAME) = true := by
    rw [Disk.exists_, h.isDir, Bool.or_true]
  have hfile : d.isFile (joinPath dir VAULT_ROOT_SETTINGS_REL) = true := by
    rw [Disk.isFile, hbytes]
    rfl
  rw [validateExistingVaultRoot, exec_bind_of_ok (exec_get d)]
  dsimp only
  rw [ensure, if_pos hexists, pure_bind, ensure, if_pos h.isDir, pure_bind, ensure,
    if_pos hfile, pure_bind]
  cases hcall : faults d.calls with
  | some error => rw [exec_bind_of_error (exec_readToString_of_refused faults hcall)]
  | none =>
      rw [exec_bind_of_ok (exec_readToString faults hcall hbytes htext), ensure,
        if_pos (by simpa using h.nonempty), pure_bind, hparsed]
      dsimp only
      rw [ensure, if_pos (by simpa using hvaultsDir)]
      rfl

end

end Upriv
