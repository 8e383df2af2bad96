import Upriv.Config.VaultConfig.Load
import Upriv.Config.VaultGroups.Load

/-!
# The six mutators

`config/vault_groups/mod.rs`.  Each of them runs under the write lock, so one
call is one step.  A group that is hidden or shown takes its vaults along,
through their own `config.toml`.
-/

namespace Upriv

/-- What the mutators are run with. -/
structure GroupsEnv where
  faults : Faults
  groupsCodec : TomlCodec VaultGroupsFile
  configCodec : TomlCodec VaultConfig
  canonicalize : Canonicalize
  /-- `utc_filename_stamp`, by the system calls made so far. -/
  filenameStamp : ℕ → String

variable (env : GroupsEnv) (root : VaultRoot)

/-! ## Hidden vaults -/

def requireAssignableVault (vaultId : String) : FsM Unit := do
  let dir ← FallibleM.ofExcept (root.vaultDir vaultId)
  let d ← get
  FallibleM.ensure (d.isDir dir) (.vaultNotFound dir)
  let _ ← loadVaultConfig env.faults env.configCodec env.canonicalize dir

/-- A vault directory and the flag to go back to. -/
structure VaultHiddenRevert where
  dir : PathBuf
  previous : Bool
  isVaultDir : ∃ vaultId, root.vaultDir vaultId = .ok dir

/-- Every existing member is loaded before any of them is written. -/
def planSetGroupedVaultsHidden (hidden : Bool) :
    List String → FsM (List (VaultHiddenRevert root))
  | [] => return []
  | vaultId :: vaultIds => do
    match hdir : root.vaultDir vaultId with
    | .error _ => planSetGroupedVaultsHidden hidden vaultIds
    | .ok dir =>
        let d ← get
        if !d.isDir dir then planSetGroupedVaultsHidden hidden vaultIds
        else
          let config ← loadVaultConfigRaw env.faults env.configCodec dir
          let planned ← planSetGroupedVaultsHidden hidden vaultIds
          if config.vault.hidden = hidden then return planned
          return ⟨dir, config.vault.hidden, vaultId, hdir⟩ :: planned

variable {root} in
/-- Last applied first; failures are ignored. -/
def revertVaultHidden (applied : List (VaultHiddenRevert root)) : FsM Unit :=
  applied.reverse.forM fun entry => do
    let _ ← FallibleM.attempt
      (setVaultHidden env.faults env.configCodec entry.dir entry.previous)

variable {root} in
def applyVaultHiddenPlan (hidden : Bool) (applied : List (VaultHiddenRevert root)) :
    List (VaultHiddenRevert root) → FsM (List (VaultHiddenRevert root))
  | [] => return applied
  | entry :: plan => do
    match ← FallibleM.attempt (setVaultHidden env.faults env.configCodec entry.dir hidden) with
    | .ok _ => applyVaultHiddenPlan hidden (applied ++ [entry]) plan
    | .error error =>
        revertVaultHidden env applied
        throw error

def setGroupedVaultsHidden (vaultIds : List String) (hidden : Bool) :
    FsM (List (VaultHiddenRevert root)) := do
  let plan ← planSetGroupedVaultsHidden env root hidden vaultIds
  applyVaultHiddenPlan env hidden [] plan

/-- Save, or take the changes to the vaults back. -/
def saveOrRevert (applied : List (VaultHiddenRevert root)) (groups : List VaultGroup) :
    FsM Unit := do
  match ← FallibleM.attempt (saveVaultGroups env.faults env.groupsCodec root groups) with
  | .ok _ => return ()
  | .error error =>
      revertVaultHidden env applied
      throw error

/-! ## Groups -/

def findGroupIndex (groups : List VaultGroup) (groupId : String) : Option ℕ :=
  groups.findIdx? (·.id == trim groupId)

/-- The index of a group and the group there. -/
def findGroup (groups : List VaultGroup) (groupId : String) :
    Option (ℕ × VaultGroup) :=
  (findGroupIndex groups groupId).bind fun idx => groups[idx]?.map (idx, ·)

/-- `grouped_vaults.retain(|m| !vault_set.contains(m))`. -/
def VaultGroup.removeVaults (vaultIds : List String) (group : VaultGroup) : VaultGroup :=
  { group with groupedVaults := group.groupedVaults.filter (· ∉ vaultIds) }

/-- `removeVaults` takes something out. -/
def VaultGroup.losesVaults (vaultIds : List String) (group : VaultGroup) : Bool :=
  group.groupedVaults.any (· ∈ vaultIds)

def requireSort (mode : String) : Result String :=
  match normalizeGroupedVaultSort mode with
  | some sort => .ok sort
  | none => .error (groupsInvalid root ("invalid grouped_vault_sort: " ++ mode))

def requireSortDirection (value : String) : Result String :=
  match normalizeGroupedVaultSortDirection value with
  | some direction => .ok direction
  | none =>
      .error (groupsInvalid root ("invalid grouped_vault_sort_direction: " ++ value))

def saturatingSucc (n : Int64) : Int64 := if n = Int64.maxValue then n else n + 1

/-- Behind every group there is. -/
def nextOrder (groups : List VaultGroup) : Int64 :=
  max (saturatingSucc ((groups.map (·.order)).max?.getD 0))
    (Int64.ofNat groups.length + 1)

/-- Result of a create: the new group and whether siblings lost vaults. -/
structure VaultGroupCreate where
  group : VaultGroup
  siblingVaultsMoved : Bool

def createVaultGroupWithSort (id displayName : String) (groupedVaults : List String)
    (groupedVaultSort groupedVaultSortDirection : Option String) (hidden : Bool) :
    FsM VaultGroupCreate := do
  requireUprivDir root
  let id := trim id
  let displayName := trim displayName
  FallibleM.ensure (slugIdIsValid id) (groupsInvalid root ("invalid group id: " ++ id))
  FallibleM.ensure (displayName ≠ "")
    (groupsInvalid root "id and display_name are required")
  let groups ← loadVaultGroupsForMutate env.faults env.groupsCodec root
  FallibleM.ensure (!groups.any (·.id == id))
    (groupsInvalid root ("group already exists: " ++ id))
  let cleanGrouped := trimVaultIds groupedVaults
  let siblings := groups.map (VaultGroup.removeVaults cleanGrouped)
  cleanGrouped.forM (requireAssignableVault env root)
  let sort ← FallibleM.ofExcept
    ((groupedVaultSort.map (requireSort root)).getD (.ok "order"))
  let direction ← ofExcept
    ((groupedVaultSortDirection.map (requireSortDirection root)).getD (.ok "asc"))
  let applied ← setGroupedVaultsHidden env root cleanGrouped hidden
  let group : VaultGroup := {
    id := id
    displayName := displayName
    order := nextOrder siblings
    collapsed := false
    hidden := hidden
    groupedVaults := cleanGrouped
    groupedVaultSort := sort
    groupedVaultSortDirection := direction }
  saveOrRevert env root applied (siblings ++ [group])
  return ⟨group, groups.any (VaultGroup.losesVaults cleanGrouped)⟩

/-- Vaults stay on disk.  The removed group, if it was there. -/
def deleteVaultGroup (groupId : String) : FsM (Option VaultGroup) := do
  requireUprivDir root
  let groups ← loadVaultGroupsForMutate env.faults env.groupsCodec root
  match findGroup groups groupId with
  | none => return none
  | some (idx, removed) =>
      saveVaultGroups env.faults env.groupsCodec root (groups.eraseIdx idx)
      return some removed

structure UpdateVaultGroupParams where
  displayName : Option String := none
  collapsed : Option Bool := none
  order : Option Int64 := none
  groupedVaults : Option (List String) := none
  groupedVaultSort : Option String := none
  groupedVaultSortDirection : Option String := none
  hidden : Option Bool := none
  deriving DecidableEq

/-- The saved group, whether membership moved, and whether the group became
hidden. -/
structure VaultGroupUpdate where
  group : VaultGroup
  groupedVaultsChanged : Bool
  hiddenBecameTrue : Bool

def requireDisplayName (name : String) : Result String :=
  if (trim name).isEmpty then .error (groupsInvalid root "display_name is empty")
  else .ok (trim name)

/-- The fields of an update that do not touch vaults. -/
def updateHeaders (params : UpdateVaultGroupParams) (group : VaultGroup) :
    Result VaultGroup := do
  let displayName ←
    (params.displayName.map (requireDisplayName root)).getD (.ok group.displayName)
  let sort ←
    (params.groupedVaultSort.map (requireSort root)).getD (.ok group.groupedVaultSort)
  let direction ← (params.groupedVaultSortDirection.map (requireSortDirection root)).getD
    (.ok group.groupedVaultSortDirection)
  return { group with
    displayName := displayName
    collapsed := params.collapsed.getD group.collapsed
    order := params.order.getD group.order
    groupedVaultSort := sort
    groupedVaultSortDirection := direction }

/-- The vaults that an update hides, and those that it shows. -/
def hideAndUnhideIds (wasHidden destHidden : Bool) (previous current : List String) :
    List String × List String :=
  match destHidden, wasHidden with
  | true, true => (current, [])
  | true, false => (uniqueVaultIds previous current, [])
  | false, true => ([], uniqueVaultIds previous current)
  | false, false => ([], current.filter (· ∉ previous))

def hideVaults (hideIds : List String) : FsM (List (VaultHiddenRevert root)) :=
  if hideIds.isEmpty then pure [] else setGroupedVaultsHidden env root hideIds true

/-- When showing fails, what was hidden before is taken back. -/
def unhideVaults (applied : List (VaultHiddenRevert root)) (unhideIds : List String) :
    FsM (List (VaultHiddenRevert root)) := do
  if unhideIds.isEmpty then return applied
  match ← FallibleM.attempt (setGroupedVaultsHidden env root unhideIds false) with
  | .ok more => return applied ++ more
  | .error error =>
      revertVaultHidden env applied
      throw error

def updateVaultGroup (groupId : String) (params : UpdateVaultGroupParams) :
    FsM VaultGroupUpdate := do
  requireUprivDir root
  let groups ← loadVaultGroupsForMutate env.faults env.groupsCodec root
  match findGroup groups groupId with
  | none => throw (.vaultGroupNotFound (trim groupId))
  | some (idx, group) =>
      let headers ← FallibleM.ofExcept (updateHeaders root params group)
      let clean := (params.groupedVaults.map trimVaultIds).getD group.groupedVaults
      let taken := (params.groupedVaults.map trimVaultIds).getD []
      let siblings := groups.map (VaultGroup.removeVaults taken)
      taken.forM (requireAssignableVault env root)
      let updated := { headers with
        groupedVaults := clean
        hidden := params.hidden.getD group.hidden }
      let (hideIds, unhideIds) :=
        hideAndUnhideIds group.hidden updated.hidden group.groupedVaults clean
      let applied ← hideVaults env root hideIds
      let applied ← unhideVaults env root applied unhideIds
      saveOrRevert env root applied (siblings.set idx updated)
      return {
        group := updated
        groupedVaultsChanged := decide (group.groupedVaults ≠ clean) ||
          (groups.eraseIdx idx).any (VaultGroup.losesVaults taken)
        hiddenBecameTrue := updated.hidden && !group.hidden }

/-- The loop of `reorder_vault_groups`. -/
def setOrders (groups : List VaultGroup) : List (String × Int64) → Result (List VaultGroup)
  | [] => .ok groups
  | (id, order) :: orders =>
    match findGroup groups id with
    | none => .error (.vaultGroupNotFound (trim id))
    | some (idx, group) => setOrders (groups.set idx { group with order := order }) orders

def reorderVaultGroups (orders : List (String × Int64)) : FsM (List VaultGroup) := do
  requireUprivDir root
  let groups ← loadVaultGroupsForMutate env.faults env.groupsCodec root
  let groups ← FallibleM.ofExcept (setOrders groups orders)
  saveVaultGroups env.faults env.groupsCodec root groups
  return groups

/-- Equal as multisets: equal after sorting. -/
def sameIdMultiset (left right : List String) : Bool :=
  left.length == right.length &&
    left.mergeSort (· ≤ ·) == right.mergeSort (· ≤ ·)

def reorderVaultGroupGroupedVaults (groupId : String) (orderedVaultIds : List String) :
    FsM VaultGroup := do
  requireUprivDir root
  let groups ← loadVaultGroupsForMutate env.faults env.groupsCodec root
  match findGroup groups groupId with
  | none => throw (.vaultGroupNotFound (trim groupId))
  | some (idx, group) =>
      let clean := trimVaultIds orderedVaultIds
      FallibleM.ensure (sameIdMultiset (trimVaultIds group.groupedVaults) clean)
        (groupsInvalid root
          "reorder grouped_vaults must be a permutation of current membership")
      let updated := { group with groupedVaults := clean }
      saveVaultGroups env.faults env.groupsCodec root (groups.set idx updated)
      return updated

/-- The bytes of the registry file, if there is one. -/
def readBackupBytes : FsM (Option Bytes) := do
  let path := vaultGroupsPath root
  let d ← get
  if d.isFile path then
    let bytes ← readFile env.faults path
    return some bytes
  else return none

/-- Where a broken file is kept: beside it, with a stamp when that is taken. -/
def backupFileName (d : Disk) : String :=
  if d.exists_ (joinPath root.uprivDir (VAULT_GROUPS_FILE_NAME ++ ".bak")) then
    VAULT_GROUPS_FILE_NAME ++ ".bak." ++ env.filenameStamp d.calls
  else VAULT_GROUPS_FILE_NAME ++ ".bak"

/-- Best effort. -/
def writeBackup : Option Bytes → FsM Unit
  | none => return ()
  | some bytes => do
      let d ← get
      let bak := joinPath root.uprivDir (backupFileName env root d)
      let _ ← FallibleM.attempt (writeFile env.faults bak bytes)

/-- Write an empty registry, then keep the old bytes if there were any. -/
def repairVaultGroups : FsM Unit := do
  requireUprivDir root
  let backupBytes ← readBackupBytes env root
  saveVaultGroups env.faults env.groupsCodec root []
  writeBackup env root backupBytes

end Upriv
