import Upriv.Config.AppSettings.Toml
import Upriv.Paths.Alias
import Upriv.Paths.Init

/-!
# Loading the app settings of a root

`config/app_settings/load_save.rs`.  The loader asks for the marker and then for
all of `settings.toml`; a root with a valid marker can be loaded exactly if the
rest of the file is as the structs say.
-/

namespace Upriv

open FallibleM

structure LoadedAppSettings where
  settings : AppSettings
  rootPath : Option PathBuf
  onDisk : Bool
  deriving DecidableEq, Repr

/-- The toml crate, and where `app_home_dir` finds the app home. -/
structure SettingsEnv where
  toml : TomlCrate
  appHomeDir : Result PathBuf

section
variable (env : SettingsEnv) (faults : Faults)

/-- Best effort: without a readable alias the mode is the default. -/
def applyAliasToAppSettings (settings : AppSettings) : FsM AppSettings := do
  let settings := { settings with
    app := { settings.app with vaultRootMode := .defaultRoot, uprivRootPath := "" } }
  match env.appHomeDir with
  | .error _ => return settings
  | .ok home =>
    match ← attempt (readVaultRootAlias faults home) with
    | .ok (some found) =>
        if found.active then
          -- A path with a line break is not sent: the UI asks again.
          let path := if '\n' ∈ found.path.toList ∨ '\r' ∈ found.path.toList then "" else found.path
          return { settings with
            app := { settings.app with vaultRootMode := .customRoot, uprivRootPath := path } }
        else return settings
    | _ => return settings

def loadAppSettingsAt (root : PathBuf) : FsM LoadedAppSettings := do
  validateExistingVaultRoot env.toml faults root
  let path := joinPath root VAULT_ROOT_SETTINGS_REL
  let raw ← readToString faults path
  let parsed ← FallibleM.ofExcept (parseSettingsToml env.toml raw path)
  let settings ← applyAliasToAppSettings env faults
    { ui := uiSettingsFromToml parsed.ui
      logging :=
        { enabled := parsed.logging.enabled
          level := (Logging.LogLevel.parseFilter parsed.logging.level).filterStr
          entriesPerFile := parsed.logging.entriesPerFile
          keepLastEntries := parsed.logging.keepLastEntries }
      app :=
        { vaultRootMode := .defaultRoot
          uprivRootPath := ""
          lastOpenedVault := trim parsed.app.lastOpenedVault }
      workspace := { path := trim parsed.workspace.path } }
  return ⟨settings, some root, true⟩

end

/-! ## Errors -/

/-- Any error but `VaultRootIncomplete`. -/
def NotIncomplete (e : UprivError) : Prop := ∀ path detail, e ≠ .vaultRootIncomplete path detail

theorem notIncomplete_io (error : IoError) : NotIncomplete (.io error) := nofun

section
variable {env : SettingsEnv} {faults : Faults} {root : PathBuf} {d d' : Disk}

/-- The alias is never a reason to fail. -/
theorem errors_applyAliasToAppSettings {P : UprivError → Prop} (settings : AppSettings) :
    Errors P (applyAliasToAppSettings env faults settings) := by
  unfold applyAliasToAppSettings
  dsimp only
  cases env.appHomeDir with
  | error e => exact errors_pure _
  | ok home =>
      refine errors_bind (errors_attempt _) fun found => ?_
      split
      · split <;> exact errors_pure _
      · exact errors_pure _

/-- With settings that fit, only the reads can fail. -/
theorem loadAppSettingsAt_notIncomplete {raw : String} {entries : List (String × TomlValue)}
    (hmarker : ValidMarker env.toml d root raw) (hparse : env.toml.parse raw = .ok entries)
    (hfit : SettingsFit env.toml entries) {e : UprivError}
    (h : ((loadAppSettingsAt env faults root).exec d).1 = .error e) : NotIncomplete e := by
  rw [loadAppSettingsAt, exec_bind, hmarker.exec_validate] at h
  cases hcall : faults d.calls with
  | some error =>
      rw [hcall] at h
      cases h
      exact notIncomplete_io error
  | none =>
      rw [hcall] at h
      dsimp only at h
      rw [exec_bind] at h
      split at h
      · rename_i text m hread
        -- The text is the one that was validated, and its settings are read.
        obtain ⟨bytes, hbytes, htext⟩ := readToString_ok faults hread
        have hraw : text = raw := by
          have hsame := hmarker.text
          rw [show d.files (joinPath root VAULT_ROOT_SETTINGS_REL) = some bytes from hbytes,
            Option.bind_some, htext] at hsame
          exact Option.some.inj hsame
        subst hraw
        rcases parseSettingsToml_cases env.toml text (joinPath root VAULT_ROOT_SETTINGS_REL) with
          ⟨⟨parsed, hparsed⟩, -⟩ | ⟨-, hnot⟩
        · rw [hparsed, exec_ofExcept_bind] at h
          obtain ⟨m', hrun⟩ := exists_exec_eq h
          exact errors_bind (errors_applyAliasToAppSettings _) (fun _ => errors_pure _) _ _ _ hrun
        · exact absurd ⟨entries, hparse, hfit⟩ hnot
      · rename_i error m hread
        cases h
        exact errors_readToString faults notIncomplete_io _ _ _ _ hread

/-- With settings that do not fit, the loader says that the root is incomplete. -/
theorem loadAppSettingsAt_incomplete {raw : String} (hmarker : ValidMarker env.toml d root raw)
    (hnot : ¬ ∃ entries, env.toml.parse raw = .ok entries ∧ SettingsFit env.toml entries) :
    ∃ detail, ((loadAppSettingsAt env noFaults root).exec d).1 =
      .error (.vaultRootIncomplete (joinPath root VAULT_ROOT_SETTINGS_REL) detail) := by
  obtain ⟨bytes, hbytes, htext⟩ := Option.bind_eq_some_iff.mp hmarker.text
  rcases parseSettingsToml_cases env.toml raw (joinPath root VAULT_ROOT_SETTINGS_REL) with
    ⟨-, hfit⟩ | ⟨⟨detail, hparsed⟩, -⟩
  · exact absurd hfit hnot
  · refine ⟨detail, ?_⟩
    rw [loadAppSettingsAt, exec_bind, hmarker.exec_validate]
    dsimp only [noFaults]
    rw [exec_bind_of_ok (exec_readToString (d := { d with calls := d.calls + 1 }) noFaults rfl
      hbytes htext), hparsed, exec_ofExcept_bind]

/-- The loader never says, whatever calls are refused, that the root is incomplete. -/
def NeverIncomplete (env : SettingsEnv) (root : PathBuf) (d : Disk) : Prop :=
  ∀ faults m, SameDisk d m → ∀ path detail,
    ((loadAppSettingsAt env faults root).exec m).1 ≠ .error (.vaultRootIncomplete path detail)

/-- A root that is reported valid can be loaded exactly if its settings, as they stand,
are a TOML document with a package section in which every known key has its type. -/
theorem neverIncomplete_iff
    (hvalid : (validateExistingVaultRoot env.toml faults root).exec d = (.ok (), d')) :
    NeverIncomplete env root d ↔
      ∃ raw entries,
        (d.files (joinPath root VAULT_ROOT_SETTINGS_REL)).bind decodeUtf8 = some raw ∧
        env.toml.parse raw = .ok entries ∧ SettingsFit env.toml entries := by
  obtain ⟨raw, hmarker⟩ := validateExistingVaultRoot_ok hvalid
  constructor
  · intro h
    by_contra hnot
    obtain ⟨detail, hload⟩ := loadAppSettingsAt_incomplete hmarker fun ⟨entries, hparse, hfit⟩ =>
      hnot ⟨raw, entries, hmarker.text, hparse, hfit⟩
    exact h noFaults d ⟨rfl, rfl⟩ _ detail hload
  · rintro ⟨raw', entries, htext, hparse, hfit⟩ faults m hsame path detail hload
    have hraw : raw' = raw := Option.some.inj (htext.symm.trans hmarker.text)
    subst hraw
    exact loadAppSettingsAt_notIncomplete (hmarker.of_sameDisk hsame) hparse hfit hload path
      detail rfl

end

/-! ## Two sample roots -/

/-- A crate that knows one text, with and without blanks around it. -/
def sampleCrate (text : String) (entries : List (String × TomlValue)) : TomlCrate where
  parse raw := if trim raw = trim text then .ok entries else .error "unsupported text"
  fields
    | .table entries => some fun _ name => entries.lookup name
    | .array items => some fun position _ => items[position]?
    | .datetime _ => some fun _ _ => none
    | _ => none
  fields_table _ := rfl
  mismatch name _ := "the document is no " ++ name

def sampleSettingsEnv (text : String) (entries : List (String × TomlValue)) : SettingsEnv where
  toml := sampleCrate text entries
  appHomeDir := .ok "/home/user/app"

def sampleSettingsDisk (text : String) : Disk where
  files path :=
    if path = "/home/user/root/.upriv/settings.toml" then some (utf8 text.toList) else none
  dirs := {"/home/user/root/.upriv"}
  calls := 0

theorem parse_sample (text : String) (entries : List (String × TomlValue)) :
    (sampleSettingsEnv text entries).toml.parse text = .ok entries := by
  simp [sampleSettingsEnv, sampleCrate]

theorem validMarker_sample (text : String) (entries : List (String × TomlValue))
    (hnonempty : (trim text).isEmpty = false)
    (hrequired : ∃ parsed, SettingsTomlRequired.deserialize (sampleCrate text entries)
      (.table entries) = some parsed ∧ (trim parsed.package.vaultsDir).isEmpty = false) :
    ValidMarker (sampleSettingsEnv text entries).toml (sampleSettingsDisk text)
      "/home/user/root" text where
  isDir := by
    change decide (joinPath "/home/user/root" UPRIV_DIR_NAME ∈
      ({"/home/user/root/.upriv"} : Finset PathBuf)) = true
    decide +kernel
  text := by
    have hpath : joinPath "/home/user/root" VAULT_ROOT_SETTINGS_REL =
        "/home/user/root/.upriv/settings.toml" := by
      decide +kernel
    rw [hpath, sampleSettingsDisk]
    dsimp only
    rw [if_pos rfl, Option.bind_some, decodeUtf8_utf8]
  nonempty := hnonempty
  required := by
    obtain ⟨parsed, hparsed, hvaultsDir⟩ := hrequired
    refine ⟨parsed, fromStr_eq_ok.mpr ⟨entries, ?_, hparsed⟩, hvaultsDir⟩
    simp [sampleSettingsEnv, sampleCrate]

def packageText : String := "[package]\nvaults_dir = \".upriv/vaults\"\n"

def packageEntries : List (String × TomlValue) :=
  [("package", .table [("vaults_dir", .string ".upriv/vaults")])]

theorem neverIncomplete_package :
    NeverIncomplete (sampleSettingsEnv packageText packageEntries) "/home/user/root"
      (sampleSettingsDisk packageText) := by
  have hmarker := validMarker_sample packageText packageEntries (by decide +kernel)
    ⟨⟨⟨".upriv/vaults"⟩⟩, rfl, by decide +kernel⟩
  have hvalid : (validateExistingVaultRoot (sampleSettingsEnv packageText packageEntries).toml
      noFaults "/home/user/root").exec (sampleSettingsDisk packageText) = (.ok (), _) :=
    hmarker.exec_validate
  have hfit : SettingsFit (sampleSettingsEnv packageText packageEntries).toml packageEntries := by
    constructor <;> simp [packageEntries, packageKeys, TomlCrate.StructFits,
      TomlCrate.fields_table, TomlFields.Fit, TomlValue.hasType, List.lookup_cons]
  exact (neverIncomplete_iff hvalid).mpr
    ⟨packageText, packageEntries, hmarker.text, parse_sample _ _, hfit⟩

/-- The locale is a number: the marker does not look at it. -/
def numberLocaleText : String :=
  "[package]\nvaults_dir = \".upriv/vaults\"\n[ui]\nlocale = 1\n"

def numberLocaleEntries : List (String × TomlValue) :=
  [("package", .table [("vaults_dir", .string ".upriv/vaults")]),
   ("ui", .table [("locale", .integer 1)])]

theorem loadAppSettingsAt_numberLocale :
    let env := sampleSettingsEnv numberLocaleText numberLocaleEntries
    ((validateExistingVaultRoot env.toml noFaults "/home/user/root").exec
        (sampleSettingsDisk numberLocaleText)).1 = .ok () ∧
      ∃ path detail, ((loadAppSettingsAt env noFaults "/home/user/root").exec
        (sampleSettingsDisk numberLocaleText)).1 =
          .error (.vaultRootIncomplete path detail) := by
  intro env
  have hmarker := validMarker_sample numberLocaleText numberLocaleEntries (by decide +kernel)
    ⟨⟨⟨".upriv/vaults"⟩⟩, rfl, by decide +kernel⟩
  have hnot : ¬ ∃ entries, env.toml.parse numberLocaleText = .ok entries ∧
      SettingsFit env.toml entries := by
    rintro ⟨entries, hparse, hfit⟩
    have hentries : numberLocaleEntries = entries :=
      Except.ok.inj ((parse_sample _ _).symm.trans hparse)
    subst hentries
    obtain ⟨fields, hfields, hlocale, -⟩ := hfit.ui (.table [("locale", .integer 1)]) rfl
    cases hfields
    exact absurd (hlocale (.integer 1) rfl) (by decide)
  refine ⟨?_, _, loadAppSettingsAt_incomplete hmarker hnot⟩
  rw [hmarker.exec_validate]
  rfl

end Upriv
