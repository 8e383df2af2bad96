import Upriv.Config.VaultGroups.Runs
import Upriv.Config.VaultGroups.Sanitize
import Upriv.Support.Keyed
import Mathlib.Data.List.Perm.Basic

/-!
# Optimistic group edits

`domain/vault-groups/order.ts` of the shared TypeScript code.  The list shows
the groups with a vault moved before the core has answered.  The core gets the
new membership of the target group only, and takes the vault out of the other
groups itself.
-/

namespace Upriv.Shared

open FallibleM

/-- Where `assignVaultToGroup` puts the vault: at a neighbour, else at the end.
An empty neighbour is no neighbour. -/
def insertVault (groupedVaults : List String) (vaultId : String)
    (beforeVaultId : Option String) (insertAfter : Bool) : List String :=
  match beforeVaultId with
  | none => groupedVaults ++ [vaultId]
  | some before =>
    if before.isEmpty then groupedVaults ++ [vaultId]
    else
      match groupedVaults.idxOf? before with
      | some idx =>
          let i := if insertAfter then idx + 1 else idx
          groupedVaults.take i ++ vaultId :: groupedVaults.drop i
      | none => groupedVaults ++ [vaultId]

/-- Move `vaultId` into the group with id `targetGroupId`. -/
def assignVaultToGroup (groups : List VaultGroup) (vaultId targetGroupId : String)
    (beforeVaultId : Option String) (insertAfter : Bool) : List VaultGroup :=
  groups.map fun group =>
    let groupedVaults := group.groupedVaults.filter (· ≠ vaultId)
    if group.id ≠ targetGroupId then
      if groupedVaults.length = group.groupedVaults.length then group
      else { group with groupedVaults := groupedVaults }
    else
      { group with
        groupedVaults := insertVault groupedVaults vaultId beforeVaultId insertAfter }

/-- The membership that the list sends: `nextGroups.find(...).groupedVaults`. -/
def membershipOf (groups : List VaultGroup) (groupId : String) : List String :=
  ((groups.find? (·.id = groupId)).map (·.groupedVaults)).getD []

/-! ## The edit -/

section
variable {vaultIds : List String} {vaultId : String} {before : Option String}
  {insertAfter : Bool}

theorem insertVault_perm :
    (insertVault vaultIds vaultId before insertAfter).Perm (vaultId :: vaultIds) := by
  have hend : (vaultIds ++ [vaultId]).Perm (vaultId :: vaultIds) :=
    List.perm_append_singleton vaultId vaultIds
  unfold insertVault
  split
  · exact hend
  · split
    · exact hend
    · split
      · dsimp only
        generalize (if insertAfter then _ else _) = i
        calc (vaultIds.take i ++ vaultId :: vaultIds.drop i).Perm
              (vaultId :: (vaultIds.take i ++ vaultIds.drop i)) := List.perm_middle
          _ = vaultId :: vaultIds := by rw [List.take_append_drop]
      · exact hend

/-- Inserted at its place, the vault is in the list once. -/
theorem cleanIds_insertVault (hclean : CleanIds vaultIds) (htrimmed : Trimmed vaultId)
    (hne : vaultId ≠ "") :
    CleanIds (insertVault (vaultIds.filter (· ≠ vaultId)) vaultId before insertAfter) := by
  have hperm : (insertVault (vaultIds.filter (· ≠ vaultId)) vaultId before insertAfter).Perm
      (vaultId :: vaultIds.filter (· ≠ vaultId)) := insertVault_perm
  have hrest := hclean.filter (· ≠ vaultId)
  constructor
  · intro id hid
    rcases List.mem_cons.mp (hperm.mem_iff.mp hid) with rfl | hmem
    · exact ⟨htrimmed, hne⟩
    · exact hrest.trimmed id hmem
  · rw [hperm.nodup_iff, List.nodup_cons]
    refine ⟨?_, hrest.nodup⟩
    simp

theorem mem_insertVault {id : String} :
    id ∈ insertVault (vaultIds.filter (· ≠ vaultId)) vaultId before insertAfter ↔
      id = vaultId ∨ id ∈ vaultIds := by
  rw [insertVault_perm.mem_iff, List.mem_cons, List.mem_filter, decide_eq_true_eq]
  by_cases hid : id = vaultId <;> simp [hid]

end

/-- Keeping the group when nothing was filtered out is no special case. -/
theorem filter_or_same (group : VaultGroup) (vaultId : String) :
    (if (group.groupedVaults.filter (· ≠ vaultId)).length = group.groupedVaults.length then
        group
      else { group with groupedVaults := group.groupedVaults.filter (· ≠ vaultId) }) =
      { group with groupedVaults := group.groupedVaults.filter (· ≠ vaultId) } := by
  split
  · rename_i hlength
    rw [List.filter_eq_self.mpr (List.length_filter_eq_length_iff.mp hlength)]
  · rfl

/-! ## The core's edit -/

section
variable {groups : List VaultGroup} {group : VaultGroup} {idx : ℕ} {known : List String}
  {vaultId : String} {before : Option String} {insertAfter : Bool}

theorem membershipOf_eq (hnodup : (groups.map (·.id)).Nodup) (hidx : groups[idx]? = some group) :
    membershipOf groups group.id = group.groupedVaults := by
  have hmem : group ∈ groups := List.mem_of_getElem? hidx
  rw [membershipOf, (find?_key_eq_some hnodup).mpr ⟨hmem, rfl⟩]
  rfl

theorem id_ne_of_getElem? {other : VaultGroup} {i : ℕ} (hnodup : (groups.map (·.id)).Nodup)
    (hne : i ≠ idx) (hother : groups[i]? = some other) (hidx : groups[idx]? = some group) :
    other.id ≠ group.id := by
  intro hid
  have hi := (List.getElem?_eq_some_iff.mp hother).1
  refine hne ((List.getElem?_inj (by rwa [List.length_map]) hnodup).mp ?_)
  rw [List.getElem?_map, List.getElem?_map, hother, hidx, Option.map_some, Option.map_some, hid]

theorem not_mem_of_getElem? {other : VaultGroup} {i : ℕ}
    (hnodup : (groups.flatMap (·.groupedVaults)).Nodup) (hne : i ≠ idx)
    (hother : groups[i]? = some other) (hidx : groups[idx]? = some group) :
    ∀ id ∈ other.groupedVaults, id ∉ group.groupedVaults := by
  intro id hidOther hidGroup
  have hpairwise := List.pairwise_iff_getElem.mp (List.nodup_flatMap.mp hnodup).2
  obtain ⟨hi, rfl⟩ := List.getElem?_eq_some_iff.mp hother
  obtain ⟨hj, rfl⟩ := List.getElem?_eq_some_iff.mp hidx
  rcases Nat.lt_or_gt_of_ne hne with hlt | hlt
  · exact hpairwise i idx hi hj hlt hidOther hidGroup
  · exact hpairwise idx i hj hi hlt hidGroup hidOther

/-- What the core saves for a new membership of the group at `idx`. -/
def withMembership (groups : List VaultGroup) (idx : ℕ) (group : VaultGroup)
    (vaultIds : List String) : List VaultGroup :=
  (groups.map (VaultGroup.removeVaults vaultIds)).set idx
    { group with groupedVaults := vaultIds }

/-- What the list sends is the membership that it shows. -/
theorem membershipOf_assign (hids : (groups.map (·.id)).Nodup)
    (hidx : groups[idx]? = some group) :
    membershipOf (assignVaultToGroup (groups.map (VaultGroup.keepKnown known)) vaultId
        group.id before insertAfter) group.id =
      insertVault ((group.groupedVaults.filter (· ∈ known)).filter (· ≠ vaultId)) vaultId
        before insertAfter := by
  set next := assignVaultToGroup (groups.map (VaultGroup.keepKnown known)) vaultId group.id
    before insertAfter with hnext
  have hnextIds : next.map (·.id) = groups.map (·.id) := by
    rw [hnext, assignVaultToGroup, List.map_map, List.map_map]
    refine List.map_congr_left fun other _ => ?_
    simp only [Function.comp_apply, VaultGroup.keepKnown]
    split
    · split <;> rfl
    · rfl
  have hget : next[idx]? = some { group with
      groupedVaults := insertVault ((group.groupedVaults.filter (· ∈ known)).filter
        (· ≠ vaultId)) vaultId before insertAfter } := by
    rw [hnext, assignVaultToGroup, List.getElem?_map, List.getElem?_map, hidx]
    simp only [Option.map_some, VaultGroup.keepKnown]
    rw [if_neg (not_not.mpr rfl)]
  exact membershipOf_eq (hnextIds ▸ hids) hget

/-- Seen through the list view, the core's edit is the optimistic one. -/
theorem keepKnown_withMembership (hids : (groups.map (·.id)).Nodup)
    (hvaults : (groups.flatMap (·.groupedVaults)).Nodup) (hidx : groups[idx]? = some group)
    (hknown : vaultId ∈ known) :
    (withMembership groups idx group
        (insertVault ((group.groupedVaults.filter (· ∈ known)).filter (· ≠ vaultId)) vaultId
          before insertAfter)).map (VaultGroup.keepKnown known) =
      assignVaultToGroup (groups.map (VaultGroup.keepKnown known)) vaultId group.id before
        insertAfter := by
  set vaultIds := insertVault ((group.groupedVaults.filter (· ∈ known)).filter (· ≠ vaultId))
    vaultId before insertAfter
  have hmem (id : String) :
      id ∈ vaultIds ↔ id = vaultId ∨ id ∈ group.groupedVaults.filter (· ∈ known) :=
    mem_insertVault
  refine List.ext_getElem? fun i => ?_
  rw [withMembership, assignVaultToGroup, List.getElem?_map, List.getElem?_map,
    List.getElem?_map, List.getElem?_set]
  split
  · rename_i hi
    subst hi
    have hlt : idx < (groups.map (VaultGroup.removeVaults vaultIds)).length := by
      rw [List.length_map]
      exact (List.getElem?_eq_some_iff.mp hidx).1
    rw [if_pos hlt, hidx]
    have hkeep : vaultIds.filter (· ∈ known) = vaultIds := by
      rw [List.filter_eq_self]
      intro id hid
      rcases (hmem id).mp hid with rfl | hid
      · simpa using hknown
      · exact (List.mem_filter.mp hid).2
    simp only [Option.map_some, Option.some.injEq, VaultGroup.keepKnown, hkeep]
    rw [if_neg (not_not.mpr rfl)]
  · rename_i hi
    rw [List.getElem?_map]
    cases hother : groups[i]? with
    | none => rfl
    | some other =>
        have hne : other.id ≠ group.id := id_ne_of_getElem? hids (Ne.symm hi) hother hidx
        have hdisjoint := not_mem_of_getElem? hvaults (Ne.symm hi) hother hidx
        have hfilter : (other.groupedVaults.filter (· ∉ vaultIds)).filter (· ∈ known) =
            (other.groupedVaults.filter (· ∈ known)).filter (· ≠ vaultId) := by
          rw [List.filter_filter, List.filter_filter]
          refine List.filter_congr fun id hid => ?_
          have hgroup := hdisjoint id hid
          by_cases hid : id ∈ known <;> simp [hmem, hid, hgroup]
        simp only [Option.map_some, Option.some.injEq, VaultGroup.keepKnown,
          VaultGroup.removeVaults, hfilter]
        rw [if_pos hne]
        exact (filter_or_same (other.keepKnown known) vaultId).symm

end

/-! ## On disk -/

section
variable {env : GroupsEnv} {root : VaultRoot}

/-- A successful update of the membership alone. -/
theorem updateVaultGroup_membership {groupId : String} {vaultIds : List String}
    {reply : VaultGroupUpdate} {d d' : Disk}
    (hrun : (updateVaultGroup env root groupId { groupedVaults := some vaultIds }).exec d =
      (.ok reply, d')) :
    ∃ idx group, (healedGroups env.groupsCodec root d)[idx]? = some group ∧
      group.id = trim groupId ∧ RegistryOnDisk env.groupsCodec root d' ∧
      healedGroups env.groupsCodec root d' =
        withMembership (healedGroups env.groupsCodec root d) idx group
          (trimVaultIds vaultIds) := by
  obtain ⟨m, hrun, hsettled, _⟩ := load_bind_ok hrun
  split at hrun
  · cases hrun
  · rename_i idx group hfind
    obtain ⟨hidx, hid⟩ := findGroup_eq_some hfind
    obtain ⟨headers, hheaders, hrun⟩ := exec_ofExcept_bind_eq_ok_iff.mp hrun
    obtain ⟨_, m₁, _, hrun⟩ := exec_bind_eq_ok_iff.mp hrun
    obtain ⟨applied, m₂, _, hrun⟩ := exec_bind_eq_ok_iff.mp hrun
    obtain ⟨applied', m₃, _, hrun⟩ := exec_bind_eq_ok_iff.mp hrun
    obtain ⟨_, m₄, hsave, hreply⟩ := exec_bind_eq_ok_iff.mp hrun
    cases hreply
    cases hheaders
    have hgroup := hsettled group (List.mem_of_getElem? hidx)
    have hupdated : VaultGroup.Settled
        { group with groupedVaults := trimVaultIds vaultIds } :=
      ⟨hgroup.id, hgroup.displayName, hgroup.sort, hgroup.direction,
        cleanIds_trimVaultIds vaultIds⟩
    obtain ⟨hregistry, hhealed⟩ := saveVaultGroups_ok
      (settled_set (settled_map_removeVaults hsettled (trimVaultIds vaultIds)) hupdated)
      (saveOrRevert_ok env root hsave)
    exact ⟨idx, group, hidx, hid, hregistry, hhealed⟩

/-- An existing vault: the core finds its directory under its very id. -/
structure IsVault (root : VaultRoot) (known : List String) (vaultId : String) : Prop where
  ownDir : root.vaultDir vaultId = .ok (joinPath root.vaultsDir vaultId)
  known : vaultId ∈ known

theorem IsVault.trimmed {known : List String} {vaultId : String}
    (h : IsVault root known vaultId) : Trimmed vaultId ∧ vaultId ≠ "" := by
  obtain ⟨component, hcomponent, hdir⟩ := except_bind_eq_ok.mp h.ownDir
  have hid : component = vaultId := joinPath_injective _ (Except.ok.inj hdir)
  subst hid
  rw [vaultIdComponent] at hcomponent
  split at hcomponent
  · rename_i hvalid
    have htrim : trim component = component := Except.ok.inj hcomponent
    refine ⟨htrim, ?_⟩
    rintro rfl
    rw [htrim] at hvalid
    cases hvalid
  · cases hcomponent

/-- The list's edit is what the core's list view shows once the core has made
its own edit from the new membership of the target group. -/
theorem assignVaultToGroup_eq_core {faults : Faults} {known : List String}
    {vaultId targetGroupId : String} {before : Option String} {insertAfter : Bool}
    {loaded : LoadedVaultGroups} {reply : VaultGroupUpdate} {d d₁ d₂ : Disk}
    (hload : (loadVaultGroups env.faults env.groupsCodec root known).exec d =
      (.ok loaded, d₁))
    (hvault : IsVault root known vaultId)
    (htarget : targetGroupId ∈ loaded.groups.map (·.id))
    (hupdate : (updateVaultGroup env root targetGroupId
      { groupedVaults := some (membershipOf (assignVaultToGroup loaded.groups vaultId
          targetGroupId before insertAfter) targetGroupId) }).exec d₁ = (.ok reply, d₂))
    (hread : faults d₂.calls = none) :
    ∃ reloaded d₃, (loadVaultGroups faults env.groupsCodec root known).exec d₂ =
        (.ok reloaded, d₃) ∧
      reloaded.groups =
        assignVaultToGroup loaded.groups vaultId targetGroupId before insertAfter := by
  obtain ⟨hgroups, hsame⟩ := loadVaultGroups_ok hload
  set groups := healedGroups env.groupsCodec root d with hhealed
  have hwf : HealedWf groups := healedWf_healedGroups _ _ _
  obtain ⟨idx, group, hidx, hid, hregistry, hsaved⟩ := updateVaultGroup_membership hupdate
  rw [healedGroups_congr (hsame.sameAt _), ← hhealed] at hidx hsaved
  obtain ⟨reloaded, d₃, hreload⟩ := loadVaultGroups_of_registry known hregistry hread
  refine ⟨reloaded, d₃, hreload, ?_⟩
  obtain ⟨htrimmed, hne⟩ := hvault.trimmed
  have htarget : trim targetGroupId = targetGroupId := by
    obtain ⟨shown, hshown, rfl⟩ := List.mem_map.mp htarget
    rw [hgroups] at hshown
    obtain ⟨source, hsource, rfl⟩ := List.mem_map.mp hshown
    exact (hwf.settled source hsource).id
  rw [htarget] at hid
  subst hid
  have hsent : membershipOf (assignVaultToGroup loaded.groups vaultId group.id before
      insertAfter) group.id =
      insertVault ((group.groupedVaults.filter (· ∈ known)).filter (· ≠ vaultId)) vaultId
        before insertAfter := by
    rw [hgroups]
    exact membershipOf_assign hwf.ids_nodup hidx
  have hmembers := (hwf.settled group (List.mem_of_getElem? hidx)).vaults.filter (· ∈ known)
  have hclean : CleanIds (insertVault ((group.groupedVaults.filter (· ∈ known)).filter
      (· ≠ vaultId)) vaultId before insertAfter) := cleanIds_insertVault hmembers htrimmed hne
  rw [(loadVaultGroups_ok hreload).1, hsaved, hsent, trimVaultIds_of_clean hclean, hgroups]
  exact keepKnown_withMembership hwf.ids_nodup hwf.vaults_nodup hidx hvault.known

end

/-! ## A sample move -/

def homeGroup (groupedVaults : List String) : VaultGroup :=
  { id := "home", displayName := "Home", order := 0, groupedVaults := groupedVaults }

def workGroup (groupedVaults : List String) : VaultGroup :=
  { sampleGroup with groupedVaults := groupedVaults }

/-- `notes` is in `home`; the other keys are left out. -/
def notesAtHomeText : String × String :=
  ("[[group]]\nid = \"home\"\ndisplay_name = \"Home\"\ngrouped_vaults = [\"notes\"]\n\n" ++
    "[[group]]\nid = \"work\"\ndisplay_name = \"Work\"\norder = ", "1")

def notesAtWorkText : String × String :=
  ("[[group]]\nid = \"home\"\ndisplay_name = \"Home\"\norder = 0\ncollapsed = false\n" ++
    "hidden = false\ngrouped_vaults = []\ngrouped_vault_sort = \"order\"\n" ++
    "grouped_vault_sort_direction = \"asc\"\n\n" ++
    "[[group]]\nid = \"work\"\ndisplay_name = \"Work\"\norder = 1\ncollapsed = false\n" ++
    "hidden = false\ngrouped_vaults = [\"notes\"]\ngrouped_vault_sort = \"order\"\n" ++
    "grouped_vault_sort_direction = ", "\"asc\"")

def notesConfigText : String := "[vault]\nid = \"notes\"\ndisplay_name = \"Notes\"\n"

/-- The two registries and one configuration. -/
def moveEnv : GroupsEnv where
  faults _ := none
  groupsCodec := .ofTable
    ([(⟨[homeGroup ["notes"], workGroup []]⟩, notesAtHomeText),
      (⟨[homeGroup [], workGroup ["notes"]]⟩, notesAtWorkText)].map (withRest "\n"))
    (eq_of_suffix_withRest (by decide +kernel))
  configCodec := .reader fun raw =>
    if raw = notesConfigText then .ok { vault := { id := "notes", displayName := "Notes" } }
    else .error "unsupported text"
  canonicalize _ := none
  filenameStamp _ := "2026-01-01-00-00-00"

/-- The disk after some system calls. -/
def moveDisk (calls : ℕ) : Disk where
  files path :=
    if path = "/home/user/root/.upriv/vault_groups.toml" then
      some (utf8 (notesAtHomeText.1 ++ notesAtHomeText.2 ++ "\n").toList)
    else if path = "/home/user/root/.upriv/vaults/notes/config.toml" then
      some (utf8 notesConfigText.toList)
    else none
  dirs := {"/home/user/root/.upriv", "/home/user/root/.upriv/vaults/notes"}
  calls := calls

theorem parse_moveDisk (calls : ℕ) :
    (parseFileFromDisk moveEnv.faults moveEnv.groupsCodec sampleRoot).exec (moveDisk calls) =
      (.ok (some ⟨[homeGroup ["notes"], workGroup []]⟩), moveDisk (calls + 1)) := by
  have hpath : vaultGroupsPath sampleRoot = "/home/user/root/.upriv/vault_groups.toml" := by
    decide +kernel
  have hfile : (moveDisk calls).files (vaultGroupsPath sampleRoot) =
      some (utf8 (notesAtHomeText.1 ++ notesAtHomeText.2 ++ "\n").toList) := by
    rw [hpath, moveDisk]
    dsimp only
    rw [if_pos rfl]
  have hraw : ((moveDisk calls).files (vaultGroupsPath sampleRoot)).bind decodeUtf8 =
      some (notesAtHomeText.1 ++ notesAtHomeText.2 ++ "\n") := by
    rw [hfile, Option.bind_some, decodeUtf8_utf8]
  have hvalid : validateSchema ⟨[homeGroup ["notes"], workGroup []]⟩ VAULT_GROUPS_FILE_NAME =
      .ok () := by
    decide +kernel
  have hfromStr : moveEnv.groupsCodec.fromStr
      ("" ++ (notesAtHomeText.1 ++ notesAtHomeText.2 ++ "\n")) =
        .ok ⟨[homeGroup ["notes"], workGroup []]⟩ :=
    moveEnv.groupsCodec.fromStr_toStringPretty _ _ "" rfl rfl
  rw [String.empty_append] at hfromStr
  exact parseFileFromDisk_of_ok hraw (parseVaultGroups_eq_ok.mpr ⟨hfromStr, hvalid⟩) rfl

theorem loadVaultGroups_moveDisk :
    (loadVaultGroups moveEnv.faults moveEnv.groupsCodec sampleRoot ["notes"]).exec
        (moveDisk 0) =
      (.ok ⟨[homeGroup ["notes"], workGroup []], 0, 0⟩, moveDisk 1) := by
  have hclean : sanitizeVaultGroups ⟨[homeGroup ["notes"], workGroup []]⟩ ["notes"] =
      ⟨[homeGroup ["notes"], workGroup []], 0, 0⟩ := by
    decide +kernel
  rw [loadVaultGroups, exec_bind_of_ok (parse_moveDisk 0)]
  exact Prod.ext (congrArg Except.ok hclean) rfl

theorem updateVaultGroup_moveDisk :
    ((updateVaultGroup moveEnv sampleRoot "work" { groupedVaults := some ["notes"] }).exec
      (moveDisk 1)).1.isOk = true := by
  have hrequire : (requireUprivDir sampleRoot).exec (moveDisk 1) = (.ok (), moveDisk 1) := by
    have hdir : (moveDisk 1).isDir sampleRoot.uprivDir = true := by decide +kernel
    simp [requireUprivDir, exec_bind, FallibleM.ensure, hdir]
  have hload : (loadVaultGroupsForMutate moveEnv.faults moveEnv.groupsCodec sampleRoot).exec
      (moveDisk 1) = (.ok [homeGroup ["notes"], workGroup []], moveDisk 2) := by
    have hheal : softenGroupsForMutate ([homeGroup ["notes"], workGroup []].map
        VaultGroup.trimHeaders) = [homeGroup ["notes"], workGroup []] := by
      decide +kernel
    rw [loadVaultGroupsForMutate, exec_bind_of_ok (parse_moveDisk 1)]
    exact Prod.ext (congrArg Except.ok hheal) rfl
  rw [updateVaultGroup, exec_bind_of_ok hrequire, exec_bind_of_ok hload]
  decide +kernel

theorem assignVaultToGroup_eq_core_notes :
    ∃ reply d₂ reloaded d₃,
      (updateVaultGroup moveEnv sampleRoot "work" { groupedVaults := some ["notes"] }).exec
        (moveDisk 1) = (.ok reply, d₂) ∧
      (loadVaultGroups moveEnv.faults moveEnv.groupsCodec sampleRoot ["notes"]).exec d₂ =
        (.ok reloaded, d₃) ∧
      reloaded.groups = assignVaultToGroup [homeGroup ["notes"], workGroup []] "notes" "work"
        none false := by
  have hvault : IsVault sampleRoot ["notes"] "notes" := ⟨by decide +kernel, by simp⟩
  have hsent : membershipOf (assignVaultToGroup [homeGroup ["notes"], workGroup []] "notes"
      "work" none false) "work" = ["notes"] := by
    decide +kernel
  obtain ⟨reply, hreply⟩ : ∃ reply, ((updateVaultGroup moveEnv sampleRoot "work"
      { groupedVaults := some ["notes"] }).exec (moveDisk 1)).1 = .ok reply := by
    have hok := updateVaultGroup_moveDisk
    revert hok
    cases ((updateVaultGroup moveEnv sampleRoot "work"
      { groupedVaults := some ["notes"] }).exec (moveDisk 1)).1 with
    | error error => simp [Except.isOk, Except.toBool]
    | ok reply => exact fun _ => ⟨reply, rfl⟩
  obtain ⟨d₂, hupdate⟩ := exists_exec_eq hreply
  have htarget : "work" ∈ (LoadedVaultGroups.mk [homeGroup ["notes"], workGroup []] 0 0).groups.map
      (·.id) := by
    decide +kernel
  obtain ⟨reloaded, d₃, hreload, hgroups⟩ := assignVaultToGroup_eq_core
    loadVaultGroups_moveDisk hvault htarget (by rwa [hsent])
    (show moveEnv.faults d₂.calls = none from rfl)
  exact ⟨reply, d₂, reloaded, d₃, hupdate, hreload, hgroups⟩

end Upriv.Shared
