import Upriv.Crates.Serde
import Upriv.Error
import Upriv.Logging.Format

/-!
# App settings and their TOML

`config/app_settings/types.rs` and `config/app_settings/toml.rs`: the settings in
memory, the structs of `settings.toml`, and how they are read.
-/

namespace Upriv

/-! ## In memory -/

inductive VaultRootMode where
  | defaultRoot
  | customRoot
  deriving DecidableEq, Repr

structure UiSettings where
  locale : String
  theme : String
  vaultListSort : String
  vaultListSortDirection : String
  vaultListView : String
  vaultListSearch : String
  vaultListShowCreateButton : Bool
  vaultListShowSearchButton : Bool
  vaultListShowSortButton : Bool
  vaultListShowViewButton : Bool
  vaultListShowHeaderMoreButton : Bool
  vaultListShowVaultMoreButton : Bool
  vaultListShowVaultSettingsButton : Bool
  vaultListShowGroupSettingsButton : Bool
  alwaysShowHiddenVaults : Bool
  vaultListShowDrag : Bool
  vaultListAllowDragIntoGroup : Bool
  fileManagerDockExpanded : Bool
  lifecycleCloseModalOnSubmit : Bool
  deriving DecidableEq, Repr

structure LoggingSettings where
  enabled : Bool
  level : String
  entriesPerFile : UInt32
  keepLastEntries : UInt32
  deriving DecidableEq, Repr

structure AppSectionSettings where
  vaultRootMode : VaultRootMode
  uprivRootPath : String
  lastOpenedVault : String
  deriving DecidableEq, Repr

structure WorkspaceSettings where
  path : String
  deriving DecidableEq, Repr

structure AppSettings where
  ui : UiSettings
  logging : LoggingSettings
  app : AppSectionSettings
  workspace : WorkspaceSettings
  deriving DecidableEq, Repr

/-! ## In `settings.toml` -/

structure WorkspaceToml where
  path : String := ""
  deriving DecidableEq, Repr

structure PackageToml where
  version : Int64 := 1
  label : String := "Upriv"
  vaultsDir : String := ".upriv/vaults"
  stateFile : String := ".upriv/state.json"
  logsDir : String := ".upriv/logs"
  appDir : String := ".upriv/app"
  deriving DecidableEq, Repr

structure UiToml where
  locale : String := "en"
  theme : String := "dark"
  showHeaderMoreButton : Bool := true
  fileManagerDockExpanded : Bool := false
  alwaysShowHiddenVaults : Bool := false
  vaultListSort : String := "order"
  vaultListSortDirection : String := "asc"
  vaultListView : String := "default"
  vaultListSearch : String := ""
  vaultListShowDrag : Bool := true
  vaultListAllowDragIntoGroup : Bool := true
  vaultListShowCreateButton : Bool := true
  vaultListShowSearchButton : Bool := true
  vaultListShowSortButton : Bool := true
  vaultListShowViewButton : Bool := true
  vaultListShowVaultMoreButton : Bool := true
  vaultListShowVaultSettingsButton : Bool := true
  vaultListShowGroupSettingsButton : Bool := true
  lifecycleCloseModalOnSubmit : Bool := false
  deriving DecidableEq, Repr

structure LoggingToml where
  enabled : Bool := true
  level : String := "info"
  entriesPerFile : UInt32 := 1000
  keepLastEntries : UInt32 := 10000
  deriving DecidableEq, Repr

structure AppToml where
  lastOpenedVault : String := ""
  deriving DecidableEq, Repr

structure SettingsToml where
  package : PackageToml
  ui : UiToml
  logging : LoggingToml
  app : AppToml
  workspace : WorkspaceToml
  deriving DecidableEq, Repr

section
variable (toml : TomlCrate)

def WorkspaceToml.deserialize (value : TomlValue) : Option WorkspaceToml := do
  let fields ← toml.fields value
  WorkspaceToml.mk <$> fields.get 0 "path" ""

def PackageToml.deserialize (value : TomlValue) : Option PackageToml := do
  let fields ← toml.fields value
  let defaults : PackageToml := {}
  PackageToml.mk
    <$> fields.get 0 "version" defaults.version
    <*> fields.get 1 "label" defaults.label
    <*> fields.get 2 "vaults_dir" defaults.vaultsDir
    <*> fields.get 3 "state_file" defaults.stateFile
    <*> fields.get 4 "logs_dir" defaults.logsDir
    <*> fields.get 5 "app_dir" defaults.appDir

def UiToml.deserialize (value : TomlValue) : Option UiToml := do
  let fields ← toml.fields value
  let defaults : UiToml := {}
  UiToml.mk
    <$> fields.get 0 "locale" defaults.locale
    <*> fields.get 1 "theme" defaults.theme
    <*> fields.get 2 "show_header_more_button" defaults.showHeaderMoreButton
    <*> fields.get 3 "file_manager_dock_expanded" defaults.fileManagerDockExpanded
    <*> fields.get 4 "always_show_hidden_vaults" defaults.alwaysShowHiddenVaults
    <*> fields.get 5 "vault_list_sort" defaults.vaultListSort
    <*> fields.get 6 "vault_list_sort_direction" defaults.vaultListSortDirection
    <*> fields.get 7 "vault_list_view" defaults.vaultListView
    <*> fields.get 8 "vault_list_search" defaults.vaultListSearch
    <*> fields.get 9 "vault_list_show_drag" defaults.vaultListShowDrag
    <*> fields.get 10 "vault_list_allow_drag_into_group" defaults.vaultListAllowDragIntoGroup
    <*> fields.get 11 "vault_list_show_create_button" defaults.vaultListShowCreateButton
    <*> fields.get 12 "vault_list_show_search_button" defaults.vaultListShowSearchButton
    <*> fields.get 13 "vault_list_show_sort_button" defaults.vaultListShowSortButton
    <*> fields.get 14 "vault_list_show_view_button" defaults.vaultListShowViewButton
    <*> fields.get 15 "vault_list_show_vault_more_button" defaults.vaultListShowVaultMoreButton
    <*> fields.get 16 "vault_list_show_vault_settings_button"
      defaults.vaultListShowVaultSettingsButton
    <*> fields.get 17 "vault_list_show_group_settings_button"
      defaults.vaultListShowGroupSettingsButton
    <*> fields.get 18 "lifecycle_close_modal_on_submit" defaults.lifecycleCloseModalOnSubmit

def LoggingToml.deserialize (value : TomlValue) : Option LoggingToml := do
  let fields ← toml.fields value
  let defaults : LoggingToml := {}
  LoggingToml.mk
    <$> fields.get 0 "enabled" defaults.enabled
    <*> fields.get 1 "level" defaults.level
    <*> fields.get 2 "entries_per_file" defaults.entriesPerFile
    <*> fields.get 3 "keep_last_entries" defaults.keepLastEntries

def AppToml.deserialize (value : TomlValue) : Option AppToml := do
  let fields ← toml.fields value
  AppToml.mk <$> fields.get 0 "last_opened_vault" ""

def SettingsToml.deserialize (value : TomlValue) : Option SettingsToml := do
  let fields ← toml.fields value
  SettingsToml.mk
    <$> fields.read (PackageToml.deserialize toml) 0 "package" none
    <*> fields.read (UiToml.deserialize toml) 1 "ui" (some {})
    <*> fields.read (LoggingToml.deserialize toml) 2 "logging" (some {})
    <*> fields.read (AppToml.deserialize toml) 3 "app" (some {})
    <*> fields.read (WorkspaceToml.deserialize toml) 4 "workspace" (some {})

def parseSettingsToml (raw : String) (path : PathBuf) : Result SettingsToml :=
  (toml.fromStr "SettingsToml" (SettingsToml.deserialize toml) raw).mapError fun error =>
    .vaultRootIncomplete path ("invalid settings.toml: " ++ error)

end

def uiSettingsFromToml (ui : UiToml) : UiSettings where
  locale := ui.locale
  theme := ui.theme
  vaultListSort := ui.vaultListSort
  vaultListSortDirection := ui.vaultListSortDirection
  vaultListView := ui.vaultListView
  vaultListSearch := ui.vaultListSearch
  vaultListShowCreateButton := ui.vaultListShowCreateButton
  vaultListShowSearchButton := ui.vaultListShowSearchButton
  vaultListShowSortButton := ui.vaultListShowSortButton
  vaultListShowViewButton := ui.vaultListShowViewButton
  vaultListShowHeaderMoreButton := ui.showHeaderMoreButton
  vaultListShowVaultMoreButton := ui.vaultListShowVaultMoreButton
  vaultListShowVaultSettingsButton := ui.vaultListShowVaultSettingsButton
  vaultListShowGroupSettingsButton := ui.vaultListShowGroupSettingsButton
  alwaysShowHiddenVaults := ui.alwaysShowHiddenVaults
  vaultListShowDrag := ui.vaultListShowDrag
  vaultListAllowDragIntoGroup := ui.vaultListAllowDragIntoGroup
  fileManagerDockExpanded := ui.fileManagerDockExpanded
  lifecycleCloseModalOnSubmit := ui.lifecycleCloseModalOnSubmit

/-! ## The types of the keys -/

def packageKeys : List (String × TomlType) :=
  [("version", .i64), ("label", .string), ("vaults_dir", .string), ("state_file", .string),
   ("logs_dir", .string), ("app_dir", .string)]

def uiKeys : List (String × TomlType) :=
  [("locale", .string), ("theme", .string), ("show_header_more_button", .boolean),
   ("file_manager_dock_expanded", .boolean), ("always_show_hidden_vaults", .boolean),
   ("vault_list_sort", .string), ("vault_list_sort_direction", .string),
   ("vault_list_view", .string), ("vault_list_search", .string),
   ("vault_list_show_drag", .boolean), ("vault_list_allow_drag_into_group", .boolean),
   ("vault_list_show_create_button", .boolean), ("vault_list_show_search_button", .boolean),
   ("vault_list_show_sort_button", .boolean), ("vault_list_show_view_button", .boolean),
   ("vault_list_show_vault_more_button", .boolean),
   ("vault_list_show_vault_settings_button", .boolean),
   ("vault_list_show_group_settings_button", .boolean),
   ("lifecycle_close_modal_on_submit", .boolean)]

def loggingKeys : List (String × TomlType) :=
  [("enabled", .boolean), ("level", .string), ("entries_per_file", .u32),
   ("keep_last_entries", .u32)]

def appKeys : List (String × TomlType) := [("last_opened_vault", .string)]

def workspaceKeys : List (String × TomlType) := [("path", .string)]

/-- The document has a package section, and every known key in it that is there has its
type. -/
structure SettingsFit (toml : TomlCrate) (entries : List (String × TomlValue)) : Prop where
  package : ∃ value, entries.lookup "package" = some value ∧ toml.StructFits packageKeys value
  ui : ∀ value, entries.lookup "ui" = some value → toml.StructFits uiKeys value
  logging : ∀ value, entries.lookup "logging" = some value → toml.StructFits loggingKeys value
  app : ∀ value, entries.lookup "app" = some value → toml.StructFits appKeys value
  workspace : ∀ value, entries.lookup "workspace" = some value →
    toml.StructFits workspaceKeys value

/-! ## Settings that are read -/

section
variable {toml : TomlCrate} {value : TomlValue} {entries : List (String × TomlValue)}

theorem isSome_packageToml :
    (PackageToml.deserialize toml value).isSome = true ↔ toml.StructFits packageKeys value :=
  isSome_deserialize fun fields => by
    simp [isSome_get, packageKeys, TomlFields.Fit, and_assoc]

theorem isSome_uiToml :
    (UiToml.deserialize toml value).isSome = true ↔ toml.StructFits uiKeys value :=
  isSome_deserialize fun fields => by
    simp [isSome_get, uiKeys, TomlFields.Fit, and_assoc]

theorem isSome_loggingToml :
    (LoggingToml.deserialize toml value).isSome = true ↔ toml.StructFits loggingKeys value :=
  isSome_deserialize fun fields => by
    simp [isSome_get, loggingKeys, TomlFields.Fit, and_assoc]

theorem isSome_appToml :
    (AppToml.deserialize toml value).isSome = true ↔ toml.StructFits appKeys value :=
  isSome_deserialize fun fields => by
    simp [isSome_get, appKeys, TomlFields.Fit]

theorem isSome_workspaceToml :
    (WorkspaceToml.deserialize toml value).isSome = true ↔
      toml.StructFits workspaceKeys value :=
  isSome_deserialize fun fields => by
    simp [isSome_get, workspaceKeys, TomlFields.Fit]

/-- A document is read into settings exactly if all its known keys have their types. -/
theorem isSome_settingsToml :
    (SettingsToml.deserialize toml (.table entries)).isSome = true ↔
      SettingsFit toml entries := by
  unfold SettingsToml.deserialize
  rw [toml.fields_table]
  simp only [Option.bind_eq_bind, Option.bind_some, isSome_seq, Option.map_eq_map,
    Option.isSome_map, Bool.and_eq_true, isSome_read_required, isSome_read_default,
    isSome_packageToml, isSome_uiToml, isSome_loggingToml, isSome_appToml,
    isSome_workspaceToml]
  constructor
  · rintro ⟨⟨⟨⟨hpackage, hui⟩, hlogging⟩, happ⟩, hworkspace⟩
    exact ⟨hpackage, hui, hlogging, happ, hworkspace⟩
  · intro h
    exact ⟨⟨⟨⟨h.package, h.ui⟩, h.logging⟩, h.app⟩, h.workspace⟩

theorem parseSettingsToml_eq_ok {raw : String} {path : PathBuf} {parsed : SettingsToml} :
    parseSettingsToml toml raw path = .ok parsed ↔
      ∃ entries, toml.parse raw = .ok entries ∧
        SettingsToml.deserialize toml (.table entries) = some parsed := by
  rw [← fromStr_eq_ok, parseSettingsToml]
  cases toml.fromStr "SettingsToml" (SettingsToml.deserialize toml) raw <;>
    simp [Except.mapError]

/-- The settings of a text are read, or the root is incomplete. -/
theorem parseSettingsToml_cases (toml : TomlCrate) (raw : String) (path : PathBuf) :
    ((∃ parsed, parseSettingsToml toml raw path = .ok parsed) ∧
        ∃ entries, toml.parse raw = .ok entries ∧ SettingsFit toml entries) ∨
      ((∃ detail, parseSettingsToml toml raw path = .error (.vaultRootIncomplete path detail)) ∧
        ¬ ∃ entries, toml.parse raw = .ok entries ∧ SettingsFit toml entries) := by
  cases hparse : parseSettingsToml toml raw path with
  | ok parsed =>
      obtain ⟨entries, hentries, hdecode⟩ := parseSettingsToml_eq_ok.mp hparse
      refine .inl ⟨⟨parsed, rfl⟩, entries, hentries, isSome_settingsToml.mp ?_⟩
      rw [hdecode, Option.isSome_some]
  | error e =>
      refine .inr ⟨?_, ?_⟩
      · unfold parseSettingsToml at hparse
        cases hread : toml.fromStr "SettingsToml" (SettingsToml.deserialize toml) raw with
        | ok parsed =>
            rw [hread] at hparse
            cases hparse
        | error error =>
            rw [hread] at hparse
            cases hparse
            exact ⟨_, rfl⟩
      · rintro ⟨entries, hentries, hfit⟩
        obtain ⟨parsed, hdecode⟩ := Option.isSome_iff_exists.mp (isSome_settingsToml.mpr hfit)
        rw [parseSettingsToml_eq_ok.mpr ⟨entries, hentries, hdecode⟩] at hparse
        cases hparse

end

end Upriv
