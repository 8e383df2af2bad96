import Upriv.Config.AppSettings.Toml
import Upriv.Paths.Workspace

/-!
# Writing the app settings as TOML

`serialize_settings_toml_str` of `config/app_settings/toml.rs`: the document that
the toml crate prints, with comments put in between.
-/

namespace Upriv

/-! ## Comments in the document -/

/-- A text split before the first place where `pattern` stands. -/
def splitBefore (pattern : List Char) : List Char → Option (List Char × List Char)
  | [] => if pattern.isEmpty then some ([], []) else none
  | c :: cs =>
    if pattern.isPrefixOf (c :: cs) then some ([], c :: cs)
    else (splitBefore pattern cs).map fun (front, rest) => (c :: front, rest)

/-- The document up to the end of a section's header line, and what follows. -/
def splitAfterHeader (header body : List Char) : Option (List Char × List Char) :=
  (splitBefore header body).map fun (front, rest) =>
    let tail := rest.drop header.length
    if tail.head? = some '\n' then (front ++ header ++ ['\n'], tail.drop 1)
    else (front ++ header, tail)

def APP_SECTION_COMMENTS : String :=
  "# Vault-root mode (`default_root` | `custom_root`): app-home `.upriv-root`, not here.\n" ++
  "# Missing/inactive → default_root; active + path → custom_root."

def WORKSPACE_SECTION_COMMENTS : String :=
  "# Absolute path for the default mount parent (open vaults). " ++
  "Empty = unset — no folder created."

def PACKAGE_SECTION_COMMENTS : String :=
  "# List groups (optional): .upriv/vault_groups.toml — missing file = no groups."

/-- After `last_opened_vault`, or below the header. -/
def injectAppSectionComments (body : List Char) : List Char :=
  match splitAfterHeader "[app]".toList body with
  | none => body
  | some (head, tail) =>
    match splitBefore "last_opened_vault =".toList tail with
    | some (front, rest) =>
      head ++ front ++ rest.takeWhile (· ≠ '\n') ++ '\n' :: APP_SECTION_COMMENTS.toList ++
        rest.dropWhile (· ≠ '\n')
    | none => head ++ APP_SECTION_COMMENTS.toList ++ '\n' :: tail

def injectWorkspaceSectionComments (body : List Char) : List Char :=
  match splitAfterHeader "[workspace]".toList body with
  | none => body
  | some (head, tail) =>
    if WORKSPACE_SECTION_COMMENTS.toList.isPrefixOf tail then body
    else head ++ WORKSPACE_SECTION_COMMENTS.toList ++ '\n' :: tail

/-- Between `[package]` and `[ui]`. -/
def injectPackageSectionComments (body : List Char) : List Char :=
  match splitBefore "\n[ui]".toList body with
  | some (package, rest) =>
    trimEndChars package ++ '\n' :: PACKAGE_SECTION_COMMENTS.toList ++ '\n' :: rest
  | none => body ++ '\n' :: PACKAGE_SECTION_COMMENTS.toList ++ ['\n']

/-! ## The document -/

/-- `[package]` of the text before; the defaults where there is none that can be read. -/
def packageFromPrevious (toml : TomlCrate) (previous : Option String) : PackageToml :=
  match previous with
  | none => {}
  | some raw =>
    match toml.fromStr "SettingsToml" (SettingsToml.deserialize toml) raw with
    | .ok parsed => parsed.package
    | .error _ => {}

def uiTomlFromSettings (ui : UiSettings) : UiToml where
  locale := ui.locale
  theme := ui.theme
  showHeaderMoreButton := ui.vaultListShowHeaderMoreButton
  fileManagerDockExpanded := ui.fileManagerDockExpanded
  alwaysShowHiddenVaults := ui.alwaysShowHiddenVaults
  vaultListSort := ui.vaultListSort
  vaultListSortDirection := ui.vaultListSortDirection
  vaultListView := ui.vaultListView
  vaultListSearch := ui.vaultListSearch
  vaultListShowDrag := ui.vaultListShowDrag
  vaultListAllowDragIntoGroup := ui.vaultListAllowDragIntoGroup
  vaultListShowCreateButton := ui.vaultListShowCreateButton
  vaultListShowSearchButton := ui.vaultListShowSearchButton
  vaultListShowSortButton := ui.vaultListShowSortButton
  vaultListShowViewButton := ui.vaultListShowViewButton
  vaultListShowVaultMoreButton := ui.vaultListShowVaultMoreButton
  vaultListShowVaultSettingsButton := ui.vaultListShowVaultSettingsButton
  vaultListShowGroupSettingsButton := ui.vaultListShowGroupSettingsButton
  lifecycleCloseModalOnSubmit := ui.lifecycleCloseModalOnSubmit

section
variable (toml : TomlCrate) (toStringPretty : SettingsToml → Except String String)
  (canonicalize : Canonicalize)

def serializeSettingsTomlStr (settings : AppSettings) (previous : Option String) :
    Result String := do
  let uprivRootPath := trim settings.app.uprivRootPath
  let vaultRoot :=
    if settings.app.vaultRootMode = .customRoot ∧ ¬ uprivRootPath.isEmpty then some uprivRootPath
    else none
  validateWorkspaceGlobalPath canonicalize settings.workspace.path vaultRoot
  let file : SettingsToml :=
    { package := packageFromPrevious toml previous
      ui := uiTomlFromSettings settings.ui
      logging :=
        { enabled := settings.logging.enabled
          level := (Logging.LogLevel.parseFilter settings.logging.level).filterStr
          entriesPerFile := settings.logging.entriesPerFile
          keepLastEntries := settings.logging.keepLastEntries }
      app := { lastOpenedVault := trim settings.app.lastOpenedVault }
      workspace := { path := trim settings.workspace.path } }
  let body ← (toStringPretty file).mapError fun error =>
    .io ⟨.other, "serialize settings.toml: " ++ error⟩
  let body := injectPackageSectionComments body.toList
  let body := injectAppSectionComments body
  let body := injectWorkspaceSectionComments body
  return String.ofList ("# Upriv marker + app settings (vault-root directory)\n\n".toList ++ body)

end

end Upriv
