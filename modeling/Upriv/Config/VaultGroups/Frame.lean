import Upriv.Config.VaultConfig.Documents
import Upriv.Config.VaultGroups.Mutate
import Upriv.Config.VaultGroups.Registry

/-!
# Only a save writes the registry

Hiding and showing vaults writes below `vaults/`, which is not where the
registry is; so a mutator that fails leaves the registry file as it was.
-/

namespace Upriv

open FallibleM

/-! ## The registry is not in a vault directory -/

theorem uprivDir_eq (root : VaultRoot) :
    root.uprivDir.toList = (joinPath root.root "").toList ++ ".upriv".toList :=
  joinPath_eq root.root ".upriv"

theorem vaultGroupsPath_eq (root : VaultRoot) :
    (vaultGroupsPath root).toList =
      (joinPath root.root "").toList ++ ".upriv/vault_groups.toml".toList := by
  have hlast : root.uprivDir.toList.getLast? = some 'v' := by
    rw [uprivDir_eq, List.getLast?_append]
    rfl
  have hempty : root.uprivDir.isEmpty = false := by
    rw [← Bool.not_eq_true, String.isEmpty_iff]
    intro hempty
    rw [hempty] at hlast
    cases hlast
  have hjoin : (joinPath root.uprivDir "").toList = root.uprivDir.toList ++ ['/'] := by
    simp [joinPath, hlast, hempty]
  rw [vaultGroupsPath, joinPath_eq, hjoin, uprivDir_eq]
  simp [VAULT_GROUPS_FILE_NAME]

theorem prefix_vaultsDir {root : VaultRoot} {vaultId : String} {dir : PathBuf}
    (hdir : root.vaultDir vaultId = .ok dir) :
    (joinPath root.root "").toList ++ ".upriv/vaults".toList <+: dir.toList := by
  obtain ⟨id, _, hjoin⟩ := except_bind_eq_ok.mp hdir
  cases hjoin
  rw [← show root.vaultsDir.toList = _ from joinPath_eq root.root ".upriv/vaults"]
  exact prefix_joinPath _ _

theorem vaultConfigPath_ne_vaultGroupsPath {root : VaultRoot} {vaultId : String}
    {dir : PathBuf} (hdir : root.vaultDir vaultId = .ok dir) :
    vaultGroupsPath root ≠ vaultConfigPath dir := by
  intro heq
  have hprefix : (joinPath root.root "").toList ++ ".upriv/vaults".toList <+:
      (vaultGroupsPath root).toList := by
    rw [heq]
    exact (prefix_vaultsDir hdir).trans (prefix_joinPath _ _)
  rw [vaultGroupsPath_eq, List.prefix_append_right_inj] at hprefix
  revert hprefix
  decide

/-! ## The cascade -/

section
variable (env : GroupsEnv) (root : VaultRoot)

/-- The registry file stays as it was. -/
abbrev SameRegistryFile : Disk → Disk → Prop := SameAt (vaultGroupsPath root)

theorem preserves_requireAssignableVault (vaultId : String) :
    Preserves SameDisk (requireAssignableVault env root vaultId) := by
  refine preserves_bind (preserves_ofExcept _) fun dir => ?_
  refine preserves_bind preserves_get fun d => ?_
  refine preserves_bind (preserves_ensure _ _) fun _ => ?_
  refine preserves_bind (preserves_loadVaultConfig _ _ _ dir) fun _ => ?_
  exact preserves_pure _

theorem preserves_planSetGroupedVaultsHidden (hidden : Bool) (vaultIds : List String) :
    Preserves SameDisk (planSetGroupedVaultsHidden env root hidden vaultIds) := by
  induction vaultIds with
  | nil => exact preserves_pure _
  | cons vaultId vaultIds ih =>
      unfold planSetGroupedVaultsHidden
      split
      · exact ih
      · rename_i dir _
        refine preserves_bind preserves_get fun d => ?_
        split
        · exact ih
        · refine preserves_bind (preserves_loadVaultConfigRaw _ _ dir) fun config => ?_
          refine preserves_bind ih fun planned => ?_
          split <;> exact preserves_pure _

theorem preserves_revertVaultHidden (applied : List (VaultHiddenRevert root)) :
    Preserves (SameRegistryFile root) (revertVaultHidden env applied) := by
  refine preserves_forM fun entry => ?_
  obtain ⟨vaultId, hdir⟩ := entry.isVaultDir
  refine preserves_bind (preserves_attempt ?_) fun _ => preserves_pure _
  exact preserves_setVaultHidden _ _ _ (vaultConfigPath_ne_vaultGroupsPath hdir)

theorem preserves_applyVaultHiddenPlan (hidden : Bool)
    (applied plan : List (VaultHiddenRevert root)) :
    Preserves (SameRegistryFile root) (applyVaultHiddenPlan env hidden applied plan) := by
  induction plan generalizing applied with
  | nil => exact preserves_pure _
  | cons entry plan ih =>
      obtain ⟨vaultId, hdir⟩ := entry.isVaultDir
      have hset := preserves_setVaultHidden env.faults env.configCodec hidden
        (vaultConfigPath_ne_vaultGroupsPath hdir)
      refine preserves_bind (preserves_attempt hset) fun outcome => ?_
      split
      · exact ih _
      · exact preserves_bind (preserves_revertVaultHidden env root applied)
          fun _ => preserves_throw _

theorem preserves_setGroupedVaultsHidden (vaultIds : List String) (hidden : Bool) :
    Preserves (SameRegistryFile root)
      (setGroupedVaultsHidden env root vaultIds hidden) := by
  refine preserves_bind (preserves_sameAt
    (preserves_planSetGroupedVaultsHidden env root hidden vaultIds) _) fun plan => ?_
  exact preserves_applyVaultHiddenPlan env root hidden [] plan

theorem preserves_hideVaults (hideIds : List String) :
    Preserves (SameRegistryFile root) (hideVaults env root hideIds) := by
  unfold hideVaults
  split
  · exact preserves_pure _
  · exact preserves_setGroupedVaultsHidden env root hideIds true

theorem preserves_unhideVaults (applied : List (VaultHiddenRevert root))
    (unhideIds : List String) :
    Preserves (SameRegistryFile root) (unhideVaults env root applied unhideIds) := by
  have hset := preserves_setGroupedVaultsHidden env root unhideIds false
  unfold unhideVaults
  split
  · exact preserves_pure _
  · refine preserves_bind (preserves_attempt hset) fun outcome => ?_
    split
    · exact preserves_pure _
    · exact preserves_bind (preserves_revertVaultHidden env root applied)
        fun _ => preserves_throw _

theorem saveOrRevert_ok {applied : List (VaultHiddenRevert root)}
    {groups : List VaultGroup} {d d' : Disk}
    (hrun : (saveOrRevert env root applied groups).exec d = (.ok (), d')) :
    (saveVaultGroups env.faults env.groupsCodec root groups).exec d = (.ok (), d') := by
  rw [saveOrRevert, exec_bind, exec_attempt] at hrun
  rcases hsave : (saveVaultGroups env.faults env.groupsCodec root groups).exec d with
    ⟨_ | _, m⟩
  · rw [hsave] at hrun
    obtain ⟨_, _, _, hthrow⟩ := exec_bind_eq_ok_iff.mp hrun
    cases hthrow
  · rw [hsave] at hrun
    cases hrun
    rfl

theorem preservesOnError_saveOrRevert (applied : List (VaultHiddenRevert root))
    (groups : List VaultGroup) :
    PreservesOnError (SameRegistryFile root) (saveOrRevert env root applied groups) := by
  intro d e d' hrun
  rw [saveOrRevert, exec_bind, exec_attempt] at hrun
  rcases hsave : (saveVaultGroups env.faults env.groupsCodec root groups).exec d with
    ⟨_ | _, m⟩
  · rw [hsave] at hrun
    have hsaved : SameAt (vaultGroupsPath root) d m :=
      (preservesOnError_saveVaultGroups d _ m hsave).sameAt _
    have hrevert : SameAt (vaultGroupsPath root) m d' :=
      (preserves_bind (preserves_revertVaultHidden env root applied)
        fun _ => preserves_throw _).exec_eq hrun
    exact hrevert.trans hsaved
  · rw [hsave] at hrun
    cases hrun

/-! ## A failed mutator -/

theorem preservesOnError_save_pure {α : Type} (groups : List VaultGroup) (a : α) :
    PreservesOnError (SameRegistryFile root) (do
      saveVaultGroups env.faults env.groupsCodec root groups
      return a) := by
  refine preservesOnError_bind_of_succeeds ?_ fun _ s => ⟨a, rfl⟩
  intro d e d' hrun
  exact (preservesOnError_saveVaultGroups d e d' hrun).sameAt _

/-- A mutator that fails after loading the groups. -/
theorem preservesOnError_load_bind {α : Type} {f : List VaultGroup → FsM α}
    (hf : ∀ groups, PreservesOnError (SameRegistryFile root) (f groups)) :
    PreservesOnError (SameRegistryFile root) (do
      requireUprivDir root
      let groups ← loadVaultGroupsForMutate env.faults env.groupsCodec root
      f groups) := by
  refine preservesOnError_bind (preserves_sameAt preserves_requireUprivDir _) fun _ => ?_
  exact preservesOnError_bind
    (preserves_sameAt preserves_loadVaultGroupsForMutate _) hf

theorem preserves_requireAssignable (vaultIds : List String) :
    Preserves (SameRegistryFile root) (vaultIds.forM (requireAssignableVault env root)) :=
  preserves_forM fun vaultId =>
    preserves_sameAt (preserves_requireAssignableVault env root vaultId) _

theorem preservesOnError_createVaultGroupWithSort (id displayName : String)
    (groupedVaults : List String) (sort direction : Option String) (hidden : Bool) :
    PreservesOnError (SameRegistryFile root)
      (createVaultGroupWithSort env root id displayName groupedVaults sort direction
        hidden) := by
  refine preservesOnError_bind (preserves_sameAt preserves_requireUprivDir _) fun _ => ?_
  refine preservesOnError_bind (preserves_ensure _ _) fun _ => ?_
  refine preservesOnError_bind (preserves_ensure _ _) fun _ => ?_
  refine preservesOnError_bind
    (preserves_sameAt preserves_loadVaultGroupsForMutate _) fun groups => ?_
  refine preservesOnError_bind (preserves_ensure _ _) fun _ => ?_
  refine preservesOnError_bind (preserves_requireAssignable env root _) fun _ => ?_
  refine preservesOnError_bind (preserves_ofExcept _) fun sort => ?_
  refine preservesOnError_bind (preserves_ofExcept _) fun direction => ?_
  refine preservesOnError_bind
    (preserves_setGroupedVaultsHidden env root _ hidden) fun applied => ?_
  exact preservesOnError_bind_of_succeeds
    (preservesOnError_saveOrRevert env root applied _) fun _ s => ⟨_, rfl⟩

theorem preservesOnError_deleteVaultGroup (groupId : String) :
    PreservesOnError (SameRegistryFile root) (deleteVaultGroup env root groupId) := by
  refine preservesOnError_load_bind env root fun groups => ?_
  split
  · exact (preserves_pure _).onError
  · exact preservesOnError_save_pure env root _ _

theorem preservesOnError_updateVaultGroup (groupId : String)
    (params : UpdateVaultGroupParams) :
    PreservesOnError (SameRegistryFile root)
      (updateVaultGroup env root groupId params) := by
  refine preservesOnError_load_bind env root fun groups => ?_
  split
  · exact (preserves_throw _).onError
  · refine preservesOnError_bind (preserves_ofExcept _) fun headers => ?_
    refine preservesOnError_bind (preserves_requireAssignable env root _) fun _ => ?_
    refine preservesOnError_bind (preserves_hideVaults env root _) fun applied => ?_
    refine preservesOnError_bind (preserves_unhideVaults env root applied _) fun _ => ?_
    exact preservesOnError_bind_of_succeeds
      (preservesOnError_saveOrRevert env root _ _) fun _ s => ⟨_, rfl⟩

theorem preservesOnError_reorderVaultGroups (orders : List (String × Int64)) :
    PreservesOnError (SameRegistryFile root) (reorderVaultGroups env root orders) := by
  refine preservesOnError_load_bind env root fun groups => ?_
  refine preservesOnError_bind (preserves_ofExcept _) fun groups => ?_
  exact preservesOnError_save_pure env root _ _

theorem preservesOnError_reorderVaultGroupGroupedVaults (groupId : String)
    (orderedVaultIds : List String) :
    PreservesOnError (SameRegistryFile root)
      (reorderVaultGroupGroupedVaults env root groupId orderedVaultIds) := by
  refine preservesOnError_load_bind env root fun groups => ?_
  split
  · exact (preserves_throw _).onError
  · refine preservesOnError_bind (preserves_ensure _ _) fun _ => ?_
    exact preservesOnError_save_pure env root _ _

theorem vaultGroupsPath_ne_backup (d : Disk) :
    vaultGroupsPath root ≠ joinPath root.uprivDir (backupFileName env root d) := by
  intro heq
  have hname := congrArg String.toList (joinPath_injective _ heq)
  unfold backupFileName at hname
  split at hname <;> simp [VAULT_GROUPS_FILE_NAME] at hname

/-- The backup goes to another file. -/
theorem preserves_writeBackup (backupBytes : Option Bytes) :
    Preserves (SameRegistryFile root) (writeBackup env root backupBytes) := by
  cases backupBytes with
  | none => exact preserves_pure _
  | some bytes =>
      refine preserves_bind preserves_get fun d => ?_
      refine preserves_bind (preserves_attempt ?_) fun _ => preserves_pure _
      exact preserves_writeFile env.faults (vaultGroupsPath_ne_backup env root d) bytes

theorem preserves_readBackupBytes :
    Preserves SameDisk (readBackupBytes env root) := by
  refine preserves_bind preserves_get fun d => ?_
  split
  · exact preserves_bind (preserves_readFile env.faults _) fun _ => preserves_pure _
  · exact preserves_pure _

theorem writeBackup_ok (backupBytes : Option Bytes) (d : Disk) :
    ((writeBackup env root backupBytes).exec d).1 = .ok () := by
  cases backupBytes <;> rfl

theorem preservesOnError_repairVaultGroups :
    PreservesOnError (SameRegistryFile root) (repairVaultGroups env root) := by
  refine preservesOnError_bind (preserves_sameAt preserves_requireUprivDir _) fun _ => ?_
  refine preservesOnError_bind
    (preserves_sameAt (preserves_readBackupBytes env root) _) fun backupBytes => ?_
  refine preservesOnError_bind_of_succeeds ?_
    fun _ d => ⟨(), writeBackup_ok env root backupBytes d⟩
  intro d e d' hrun
  exact (preservesOnError_saveVaultGroups d e d' hrun).sameAt _

end

end Upriv
