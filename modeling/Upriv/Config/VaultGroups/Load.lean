import Upriv.Config.VaultGroups.Types
import Upriv.Crates.Toml
import Upriv.Fs.Disk

/-!
# Loading and writing `vault_groups.toml`

`config/vault_groups/mod.rs`: what the loader accepts, what it heals before a
mutation, and what is checked before a write.
-/

namespace Upriv

def VAULT_GROUPS_FILE_NAME : String := "vault_groups.toml"

def VAULT_GROUPS_TOML_HEADER : String :=
  "# Optional vault list organization (not a vault).\n" ++
  "# Membership is grouped_vaults[] here — not settings.toml or vaults/<id>/config.toml.\n" ++
  "# Missing file = no groups.\n\n"

set_option maxRecDepth 4000 in
theorem isCommentBlock_header : IsCommentBlock VAULT_GROUPS_TOML_HEADER = true := by
  delta VAULT_GROUPS_TOML_HEADER
  refine (isCommentBlock_ofList_append _ _ _).trans ?_
  decide +kernel

def vaultGroupsPath (root : VaultRoot) : PathBuf :=
  joinPath root.uprivDir VAULT_GROUPS_FILE_NAME

def groupsInvalid (root : VaultRoot) (detail : String) : UprivError :=
  .vaultGroupsInvalid (vaultGroupsPath root) detail

/-! ## Parsing -/

/-- The loop of `validate_schema`; `seenIds` are the ids before `groups`. -/
def validateGroups (path : PathBuf) (seenIds : List String) :
    List VaultGroup → Result Unit
  | [] => .ok ()
  | group :: groups =>
    let id := trim group.id
    if id.isEmpty then .error (.vaultGroupsInvalid path "[[group]].id is empty")
    else if (trim group.displayName).isEmpty then
      .error (.vaultGroupsInvalid path
        ("[[group]].display_name is empty for id " ++ id))
    else if id ∈ seenIds then
      .error (.vaultGroupsInvalid path ("duplicate [[group]].id: " ++ id))
    else validateGroups path (id :: seenIds) groups

def validateSchema (file : VaultGroupsFile) (path : PathBuf) : Result Unit :=
  validateGroups path [] file.groups

/-- Parse and validate, with `path` in the errors. -/
def parseVaultGroups (codec : TomlCodec VaultGroupsFile) (path : PathBuf)
    (raw : String) : Result VaultGroupsFile := do
  match codec.fromStr raw with
  | .error error =>
      .error (.vaultGroupsInvalid path ("invalid vault_groups.toml: " ++ error))
  | .ok parsed =>
      validateSchema parsed path
      return parsed

def parseVaultGroupsTomlStr (codec : TomlCodec VaultGroupsFile) (raw : String) :
    Result VaultGroupsFile :=
  parseVaultGroups codec VAULT_GROUPS_FILE_NAME raw

def parseFileFromDisk (faults : Faults) (codec : TomlCodec VaultGroupsFile)
    (root : VaultRoot) : FsM (Option VaultGroupsFile) := do
  let path := vaultGroupsPath root
  let d ← get
  FallibleM.ensure (d.exists_ path → d.isFile path)
    (.vaultGroupsInvalid path "vault_groups.toml exists but is not a file")
  if !d.isFile path then return none
  let raw ← readToString faults path
  let parsed ← FallibleM.ofExcept (parseVaultGroups codec path raw)
  return some parsed

/-! ## Healing -/

def VaultGroup.trimHeaders (group : VaultGroup) : VaultGroup :=
  { group with id := trim group.id, displayName := trim group.displayName }

/-- The loop of `soften_groups_for_mutate`: a vault stays in the first group
that claims it. -/
def softenGroups (claimed : List String) : List VaultGroup → List VaultGroup
  | [] => []
  | group :: groups =>
    let groupedVaults := (trimVaultIds group.groupedVaults).filter (· ∉ claimed)
    { group.trimHeaders with
      groupedVaultSort := (normalizeGroupedVaultSort group.groupedVaultSort).getD "order"
      groupedVaultSortDirection :=
        (normalizeGroupedVaultSortDirection group.groupedVaultSortDirection).getD "asc"
      groupedVaults := groupedVaults } ::
      softenGroups (claimed ++ groupedVaults) groups

def softenGroupsForMutate (groups : List VaultGroup) : List VaultGroup :=
  softenGroups [] groups

/-- `soften_groups_for_mutate(load_vault_groups_raw(root)?)`. -/
def loadVaultGroupsForMutate (faults : Faults) (codec : TomlCodec VaultGroupsFile)
    (root : VaultRoot) : FsM (List VaultGroup) := do
  match ← parseFileFromDisk faults codec root with
  | none => return []
  | some parsed =>
      return softenGroupsForMutate (parsed.groups.map VaultGroup.trimHeaders)

/-! ## Writing -/

/-- The loop of `prepare_groups_for_write`. -/
def prepareGroups (path : PathBuf) (seenIds claimed : List String) :
    List VaultGroup → Result (List VaultGroup)
  | [] => .ok []
  | group :: groups =>
    let id := trim group.id
    let displayName := trim group.displayName
    if !slugIdIsValid id then
      .error (.vaultGroupsInvalid path ("invalid [[group]].id: " ++ id))
    else if displayName.isEmpty then
      .error (.vaultGroupsInvalid path
        ("[[group]].display_name is empty for id " ++ id))
    else if id ∈ seenIds then
      .error (.vaultGroupsInvalid path ("duplicate [[group]].id: " ++ id))
    else
      match normalizeGroupedVaultSort group.groupedVaultSort,
          normalizeGroupedVaultSortDirection group.groupedVaultSortDirection with
      | none, _ =>
          .error (.vaultGroupsInvalid path
            ("invalid grouped_vault_sort: " ++ group.groupedVaultSort))
      | some _, none =>
          .error (.vaultGroupsInvalid path ("invalid grouped_vault_sort_direction: " ++
            group.groupedVaultSortDirection))
      | some sort, some direction =>
        let groupedVaults := trimVaultIds group.groupedVaults
        match groupedVaults.find? (· ∈ claimed) with
        | some vaultId =>
            .error (.vaultGroupsInvalid path ("vault already in a group: " ++ vaultId))
        | none => do
            let rest ← prepareGroups path (id :: seenIds) (claimed ++ groupedVaults) groups
            return { group with
              id := id
              displayName := displayName
              groupedVaults := groupedVaults
              groupedVaultSort := sort
              groupedVaultSortDirection := direction } :: rest

def prepareGroupsForWrite (root : VaultRoot) (groups : List VaultGroup) :
    Result (List VaultGroup) :=
  prepareGroups (vaultGroupsPath root) [] [] groups

def serializeVaultGroups (codec : TomlCodec VaultGroupsFile) (groups : List VaultGroup) :
    Result String :=
  match codec.toStringPretty ⟨groups⟩ with
  | .error error =>
      .error (.vaultGroupsInvalid VAULT_GROUPS_FILE_NAME
        ("serialize vault_groups.toml failed: " ++ error))
  | .ok body => .ok (VAULT_GROUPS_TOML_HEADER ++ body)

def requireUprivDir (root : VaultRoot) : FsM Unit := do
  let d ← get
  FallibleM.ensure (d.isDir root.uprivDir) (.vaultRootNotFound root.uprivDir)

def saveVaultGroups (faults : Faults) (codec : TomlCodec VaultGroupsFile)
    (root : VaultRoot) (groups : List VaultGroup) : FsM Unit := do
  requireUprivDir root
  let prepared ← FallibleM.ofExcept (prepareGroupsForWrite root groups)
  let body ← FallibleM.ofExcept (serializeVaultGroups codec prepared)
  writeBytesAtomicExistingParent faults (vaultGroupsPath root) (utf8 body.toList)

end Upriv
