import Mathlib.Data.List.Permutation
import Mathlib.Data.List.Sort
import Upriv.Config.VaultGroups.Accepted

/-!
# Reordering what the list shows

A reorder names all the vaults of a group; the list shows those of them that
are known.  What is shown can be reordered exactly where nothing is left out,
in a registry that can be written.
-/

namespace Upriv

open FallibleM

/-- The group with its vaults in this order. -/
def VaultGroup.withVaults (group : VaultGroup) (order : List String) : VaultGroup :=
  { group with groupedVaults := order }

/-! ## Lists of ids -/

theorem sameIdMultiset_iff {left right : List String} :
    sameIdMultiset left right = true ↔ left.Perm right := by
  constructor
  · exact perm_of_sameIdMultiset
  · intro hperm
    have hsorted : left.mergeSort (· ≤ ·) = right.mergeSort (· ≤ ·) := by
      refine List.Perm.eq_of_pairwise' (r := (· ≤ ·)) (List.pairwise_mergeSort' _ _)
        (List.pairwise_mergeSort' _ _) ?_
      calc (left.mergeSort (· ≤ ·)).Perm left := List.mergeSort_perm left _
        List.Perm _ right := hperm
        List.Perm _ (right.mergeSort (· ≤ ·)) := (List.mergeSort_perm right _).symm
    rw [sameIdMultiset, hperm.length_eq, hsorted]
    simp

theorem CleanIds.perm {ids ids' : List String} (h : CleanIds ids) (hperm : ids'.Perm ids) :
    CleanIds ids' where
  trimmed id hid := h.trimmed id (hperm.mem_iff.mp hid)
  nodup := hperm.nodup_iff.mpr h.nodup

/-! ## Finding a group again -/

section
variable {groups : List VaultGroup} {idx : ℕ} {group : VaultGroup}

theorem findGroup_of_getElem? (hsettled : group.Settled) (hids : (groups.map (·.id)).Nodup)
    (hidx : groups[idx]? = some group) : findGroup groups group.id = some (idx, group) := by
  obtain ⟨hlt, hgroup⟩ := List.getElem?_eq_some_iff.mp hidx
  have hfirst : findGroupIndex groups group.id = some idx := by
    rw [findGroupIndex, show trim group.id = group.id from hsettled.id,
      List.findIdx?_eq_some_iff_getElem]
    refine ⟨hlt, by simp [hgroup], fun j hj hsame => ?_⟩
    -- Two groups with one id are one group.
    have hids' : (groups.map (·.id))[j]? = (groups.map (·.id))[idx]? := by
      rw [List.getElem?_map, List.getElem?_map, hidx, List.getElem?_eq_getElem (hj.trans hlt)]
      simpa using hsame
    have hlength : j < (groups.map (·.id)).length := by
      rw [List.length_map]
      exact hj.trans hlt
    exact hj.ne ((List.getElem?_inj hlength hids).mp hids')
  rw [findGroup, hfirst, Option.bind_some, hidx]
  rfl

theorem VaultGroup.Settled.withVaults (hgroup : group.Settled) {order : List String}
    (horder : CleanIds order) : (group.withVaults order).Settled :=
  ⟨hgroup.id, hgroup.displayName, hgroup.sort, hgroup.direction, horder⟩

theorem Registry.set_withVaults (hregistry : Registry groups) (hidx : groups[idx]? = some group)
    {order : List String} (hperm : order.Perm group.groupedVaults) :
    Registry (groups.set idx (group.withVaults order)) := by
  have hgroup := List.mem_of_getElem? hidx
  exact hregistry.set hidx rfl (hregistry.displayName_ne group hgroup)
    (hregistry.displayName_trimmed group hgroup) (hregistry.sort_legal group hgroup)
    (hregistry.direction_legal group hgroup) hperm

/-- Where all its vaults are known, a group is shown as it is. -/
theorem keepKnown_of_known {known : List String}
    (h : ∀ vaultId ∈ group.groupedVaults, vaultId ∈ known) : group.keepKnown known = group := by
  have hfilter : group.groupedVaults.filter (· ∈ known) = group.groupedVaults := by
    rw [List.filter_eq_self]
    simpa using h
  rw [VaultGroup.keepKnown, hfilter]

end

/-! ## Reordering -/

/-- Each order of the vaults that the list shows for the group at `idx` is accepted, and
is what the list shows for it next, with the other groups as before. -/
def ReorderShows (env : GroupsEnv) (root : VaultRoot) (d : Disk) (file : VaultGroupsFile)
    (known : List String) (idx : ℕ) : Prop :=
  ∀ shown, (sanitizeVaultGroups file known).groups[idx]? = some shown →
    ∀ order, order.Perm shown.groupedVaults →
      ∃ reply d' loaded d'',
        (reorderVaultGroupGroupedVaults env root shown.id order).exec d = (.ok reply, d') ∧
        (loadVaultGroups env.faults env.groupsCodec root known).exec d' = (.ok loaded, d'') ∧
        loaded.groups =
          (sanitizeVaultGroups file known).groups.set idx (shown.withVaults order)

section
variable {env : GroupsEnv} {root : VaultRoot} {file : VaultGroupsFile} {d d' : Disk}
  {known order : List String} {idx : ℕ} {group reply : VaultGroup}

/-- An accepted reorder names the vaults of the group, and the groups can be written. -/
theorem reorder_ok (haccepts : Accepts env.groupsCodec root d file)
    (hfind : findGroup (softenGroupsForMutate file.groups) group.id = some (idx, group))
    (hrun : (reorderVaultGroupGroupedVaults env root group.id order).exec d = (.ok reply, d')) :
    (trimVaultIds group.groupedVaults).Perm (trimVaultIds order) ∧
      ∃ out, prepareGroupsForWrite root ((softenGroupsForMutate file.groups).set idx
        (group.withVaults (trimVaultIds order))) = .ok out := by
  obtain ⟨m, hrun, -, -⟩ := load_bind_ok hrun
  rw [haccepts.healedGroups, hfind] at hrun
  obtain ⟨hsame, hrun⟩ := exec_ensure_bind_eq_ok_iff.mp hrun
  obtain ⟨_, m', hsave, -⟩ := exec_bind_eq_ok_iff.mp hrun
  obtain ⟨_, m'', -, hsave⟩ := exec_bind_eq_ok_iff.mp hsave
  obtain ⟨out, hprepared, -⟩ := exec_ofExcept_bind_eq_ok_iff.mp hsave
  exact ⟨perm_of_sameIdMultiset hsame, out, hprepared⟩

theorem exec_reorder (haccepts : Accepts env.groupsCodec root d file)
    (hdir : d.isDir root.uprivDir = true) (hcall : env.faults d.calls = none)
    (hfind : findGroup (softenGroupsForMutate file.groups) group.id = some (idx, group))
    (hgroup : group.Settled) (hperm : order.Perm group.groupedVaults) :
    (reorderVaultGroupGroupedVaults env root group.id order).exec d =
      exec (do
        saveVaultGroups env.faults env.groupsCodec root
          ((softenGroupsForMutate file.groups).set idx (group.withVaults order))
        return group.withVaults order) { d with calls := d.calls + 1 } := by
  have hclean : trimVaultIds order = order := trimVaultIds_of_clean (hgroup.vaults.perm hperm)
  have hsame : sameIdMultiset (trimVaultIds group.groupedVaults) (trimVaultIds order) = true := by
    rw [hclean, trimVaultIds_of_clean hgroup.vaults, sameIdMultiset_iff]
    exact hperm.symm
  rw [reorderVaultGroupGroupedVaults, exec_bind_of_ok (exec_requireUprivDir hdir),
    exec_bind_of_ok (haccepts.exec_load hcall), hfind]
  dsimp only
  rw [ensure, if_pos hsame, pure_bind, hclean]
  rfl

/-- The vaults of a group after healing, in terms of the file. -/
theorem forall_mem_groupedVaults_iff {P : String → Prop}
    (hgroup : (softenGroupsForMutate file.groups)[idx]? = some group) :
    (∀ vaultId ∈ group.groupedVaults, P vaultId) ↔
      ∀ vaultId, FirstToList file.groups vaultId idx → P vaultId := by
  refine forall_congr' fun vaultId => imp_congr_left ?_
  have hhas : HasVault (softenGroupsForMutate file.groups) vaultId idx ↔
      vaultId ∈ group.groupedVaults := by
    simp [HasVault, hgroup]
  rw [← hhas, softenGroupsForMutate, hasVault_softenGroups]
  simp

/-- For a file that loads and a group of it: what is shown can be reordered exactly if the
vaults that the group is the first to list are all known and all group ids are valid slugs. -/
theorem reorderShows_iff (hfaults : ∀ n, env.faults n = none)
    (hdir : d.isDir root.uprivDir = true) (haccepts : Accepts env.groupsCodec root d file)
    (hgroup : (softenGroupsForMutate file.groups)[idx]? = some group)
    (hserializes : ∀ order, order.Perm group.groupedVaults → env.groupsCodec.Serializes
      ⟨(softenGroupsForMutate file.groups).set idx (group.withVaults order)⟩) :
    ReorderShows env root d file known idx ↔
      (∀ vaultId, FirstToList file.groups vaultId idx → vaultId ∈ known) ∧
        ∀ group ∈ file.groups, slugIdIsValid (trim group.id) = true := by
  have hsettled := settled_softenGroupsForMutate file.groups
  have hgroupSettled := hsettled group (List.mem_of_getElem? hgroup)
  have hids : ((softenGroupsForMutate file.groups).map (·.id)).Nodup := by
    rw [← haccepts.healedGroups]
    exact (healedWf_healedGroups _ _ _).ids_nodup
  have hfind := findGroup_of_getElem? hgroupSettled hids hgroup
  have hlist := (sanitizeVaultGroups_eq_soften file known).1
  rw [← registry_softenGroupsForMutate_iff haccepts.validateSchema,
    ← forall_mem_groupedVaults_iff hgroup]
  constructor
  · intro h
    have hshown : (sanitizeVaultGroups file known).groups[idx]? =
        some (group.keepKnown known) := by
      rw [hlist, List.getElem?_map, hgroup, Option.map_some]
    obtain ⟨_, _, _, _, hrun, -, -⟩ := h _ hshown _ (.refl _)
    obtain ⟨hperm, out, hprepared⟩ := reorder_ok haccepts hfind hrun
    have hclean : CleanIds (group.keepKnown known).groupedVaults :=
      hgroupSettled.vaults.filter _
    rw [trimVaultIds_of_clean hgroupSettled.vaults, trimVaultIds_of_clean hclean] at hperm
    have hknown : ∀ vaultId ∈ group.groupedVaults, vaultId ∈ known := by
      intro vaultId hvault
      have hmem := (List.mem_filter.mp (hperm.mem_iff.mp hvault)).2
      simpa using hmem
    refine ⟨hknown, ?_⟩
    have hsame : (softenGroupsForMutate file.groups).set idx
        (group.withVaults group.groupedVaults) = softenGroupsForMutate file.groups :=
      set_of_getElem? hgroup
    rw [trimVaultIds_of_clean hclean, keepKnown_of_known hknown, hsame] at hprepared
    exact (prepareGroups_softenGroupsForMutate_iff root _).mp ⟨out, hprepared⟩
  · rintro ⟨hknown, hregistry⟩ shown hshown order hperm
    rw [hlist, List.getElem?_map, hgroup, Option.map_some, keepKnown_of_known hknown,
      Option.some.injEq] at hshown
    subst hshown
    have hsettled' : ∀ other ∈ (softenGroupsForMutate file.groups).set idx
        (group.withVaults order), other.Settled :=
      settled_set hsettled (hgroupSettled.withVaults (hgroupSettled.vaults.perm hperm))
    have hprepared : prepareGroupsForWrite root ((softenGroupsForMutate file.groups).set idx
        (group.withVaults order)) = .ok _ :=
      (prepareGroupsForWrite_ok_iff hsettled').mpr ⟨hregistry.set_withVaults hgroup hperm, rfl⟩
    obtain ⟨d', hsave⟩ := saveVaultGroups_succeeds (d := { d with calls := d.calls + 1 }) hfaults
      hdir hprepared (hserializes order hperm)
    obtain ⟨hdisk, hhealed⟩ := saveVaultGroups_ok hsettled' hsave
    obtain ⟨loaded, d'', hload⟩ := loadVaultGroups_of_registry known hdisk (hfaults _)
    refine ⟨group.withVaults order, d', loaded, d'', ?_, hload, ?_⟩
    · rw [exec_reorder haccepts hdir (hfaults _) hfind hgroupSettled hperm, exec_bind_of_ok hsave]
      rfl
    · have hkeep : (group.withVaults order).keepKnown known = group.withVaults order :=
        keepKnown_of_known fun vaultId hvault => hknown vaultId (hperm.mem_iff.mp hvault)
      rw [(loadVaultGroups_ok hload).1, hhealed, List.map_set, hkeep, hlist]

end

/-! ## Two sample lists -/

/-- Both orders of two vaults. -/
def listedTexts : List (VaultGroupsFile × String × String) :=
  [(⟨[workWith ["notes", "taxes"]]⟩, workText ++ "false\ngrouped_vaults = [",
      "\"notes\", \"taxes\""),
    (⟨[workWith ["taxes", "notes"]]⟩, workText ++ "false\ngrouped_vaults = [",
      "\"taxes\", \"notes\"")]

def listedRest : String :=
  "]\ngrouped_vault_sort = \"order\"\ngrouped_vault_sort_direction = \"asc\"\n"

def listedEnv : GroupsEnv where
  faults := noFaults
  groupsCodec := .ofTable (listedTexts.map (withRest listedRest))
    (eq_of_suffix_withRest (by decide +kernel))
  configCodec := .ofTable [] noConfigTexts
  canonicalize _ := none
  filenameStamp _ := "2026-01-01-00-00-00"

def listedDisk : Disk :=
  registryDisk (workText ++ "false\ngrouped_vaults = [" ++ "\"notes\", \"taxes\"" ++ listedRest)
    {"/home/user/root/.upriv"}

theorem accepts_listedDisk :
    Accepts listedEnv.groupsCodec sampleRoot listedDisk ⟨[workWith ["notes", "taxes"]]⟩ :=
  accepts_of_toStringPretty (files_registryDisk _ _) rfl (by decide +kernel)

theorem isDir_listedDisk : listedDisk.isDir sampleRoot.uprivDir = true := by decide +kernel

theorem healed_listed :
    softenGroupsForMutate [workWith ["notes", "taxes"]] = [workWith ["notes", "taxes"]] := by
  decide +kernel

theorem reorderShows_notes :
    ReorderShows listedEnv sampleRoot listedDisk ⟨[workWith ["notes", "taxes"]]⟩
      ["notes", "taxes"] 0 := by
  have hgroup : (softenGroupsForMutate [workWith ["notes", "taxes"]])[0]? =
      some (workWith ["notes", "taxes"]) := by
    rw [healed_listed]
    rfl
  refine (reorderShows_iff (fun _ => rfl) isDir_listedDisk accepts_listedDisk hgroup
    fun order hperm => ?_).mpr ⟨?_, by decide +kernel⟩
  · rw [healed_listed]
    rcases List.perm_pair.mp hperm with rfl | rfl
    · exact ⟨_, rfl⟩
    · exact ⟨_, rfl⟩
  · rw [← forall_mem_groupedVaults_iff hgroup]
    simp [workWith]

/-- The folder of `notes` is gone: only `taxes` is shown, and no order of it is accepted. -/
theorem reorderShown_missingFolder_refused :
    Accepts listedEnv.groupsCodec sampleRoot listedDisk ⟨[workWith ["notes", "taxes"]]⟩ ∧
      (sanitizeVaultGroups ⟨[workWith ["notes", "taxes"]]⟩ ["taxes"]).groups =
        [workWith ["taxes"]] ∧
      ((reorderVaultGroupGroupedVaults listedEnv sampleRoot "work" ["taxes"]).exec
          listedDisk).1 =
        .error (.vaultGroupsInvalid "/home/user/root/.upriv/vault_groups.toml"
          "reorder grouped_vaults must be a permutation of current membership") := by
  refine ⟨accepts_listedDisk, by decide +kernel, ?_⟩
  rw [reorderVaultGroupGroupedVaults, exec_bind_of_ok (exec_requireUprivDir isDir_listedDisk),
    exec_bind_of_ok (accepts_listedDisk.exec_load rfl), healed_listed]
  decide +kernel

end Upriv
