import Upriv.Shared.VaultGroups.Hierarchy
import Upriv.Shared.VaultGroups.Order
import Mathlib.Data.List.Flatten

/-!
# Membership edits on the groups of the list

`assignVaultToGroup` and its neighbours of `domain/vault-groups/order.ts`, on the
groups as the list holds them, and where a dropped vault is then shown.
-/

namespace Upriv.Shared.VaultList

/-- Drop onto a member inserts after it when the group is shown in reverse. -/
def groupedVaultDropInsertsAfter (group : VaultGroup) : Bool :=
  let sort := groupedVaultSortOf group
  sort.mode = .order && sort.direction = .desc

/-- Move `vaultId` into the group with id `targetGroupId`. -/
def assignVaultToGroup (groups : List VaultGroup) (vaultId targetGroupId : String)
    (beforeVaultId : Option String) (insertAfter : Bool) : List VaultGroup :=
  groups.map fun group =>
    let groupedVaults := group.groupedVaults.filter (· ≠ vaultId)
    if group.id ≠ targetGroupId then
      if groupedVaults.length = group.groupedVaults.length then group
      else { group with groupedVaults := groupedVaults }
    else
      { group with
        groupedVaults := insertVault groupedVaults vaultId beforeVaultId insertAfter }

/-- Take `vaultId` out of every group. -/
def removeVaultFromGroups (groups : List VaultGroup) (vaultId : String) : List VaultGroup :=
  groups.map fun group =>
    if vaultId ∉ group.groupedVaults then group
    else { group with groupedVaults := group.groupedVaults.filter (· ≠ vaultId) }

/-- The group without the vault. -/
def VaultGroup.without (vaultId : String) (group : VaultGroup) : VaultGroup :=
  { group with groupedVaults := group.groupedVaults.filter (· ≠ vaultId) }

/-! ## One group -/

section
variable {group : VaultGroup} {groups : List VaultGroup} {vaultId : String}

theorem without_eq_self (h : vaultId ∉ group.groupedVaults) : group.without vaultId = group := by
  have hkeep : group.groupedVaults.filter (· ≠ vaultId) = group.groupedVaults := by
    rw [List.filter_eq_self]
    intro id hid
    exact decide_eq_true fun heq => h (heq ▸ hid)
  rw [VaultGroup.without, hkeep]

theorem removeVaultFromGroups_eq :
    removeVaultFromGroups groups vaultId = groups.map (VaultGroup.without vaultId) := by
  rw [removeVaultFromGroups]
  apply List.map_congr_left
  intro group _
  split
  · rename_i hnot
    exact (without_eq_self hnot).symm
  · rfl

/-- The target gets the vault, and the other groups lose it. -/
theorem assignVaultToGroup_eq {targetGroupId : String} {before : Option String}
    {insertAfter : Bool} :
    assignVaultToGroup groups vaultId targetGroupId before insertAfter =
      groups.map fun group =>
        if group.id = targetGroupId then
          { group with groupedVaults :=
              insertVault (group.without vaultId).groupedVaults vaultId before insertAfter }
        else group.without vaultId := by
  rw [assignVaultToGroup]
  apply List.map_congr_left
  intro group _
  by_cases hid : group.id = targetGroupId
  · simp only [hid, ne_eq, not_true_eq_false, if_false, if_true]
    rfl
  · simp only [hid, ne_eq, not_false_eq_true, if_true, if_false]
    split
    · rename_i hlength
      have hnot : vaultId ∉ group.groupedVaults := by
        intro hmem
        have hkept := List.length_filter_eq_length_iff.mp hlength vaultId hmem
        exact of_decide_eq_true hkept rfl
      exact (without_eq_self hnot).symm
    · rfl

end

/-! ## At a neighbour -/

section
variable {front back : List String} {vaultId before : String}

theorem exists_insertVault {vaultIds : List String} {before : Option String}
    {insertAfter : Bool} :
    ∃ i, insertVault vaultIds vaultId before insertAfter =
      vaultIds.take i ++ vaultId :: vaultIds.drop i := by
  have hend : vaultIds ++ [vaultId] =
      vaultIds.take vaultIds.length ++ vaultId :: vaultIds.drop vaultIds.length := by simp
  unfold insertVault
  split
  · exact ⟨_, hend⟩
  · split
    · exact ⟨_, hend⟩
    · split
      · exact ⟨_, rfl⟩
      · exact ⟨_, hend⟩

/-- The others stay in their order. -/
theorem filter_insertVault {vaultIds : List String} {before : Option String}
    {insertAfter : Bool} :
    (insertVault vaultIds vaultId before insertAfter).filter (· ≠ vaultId) =
      vaultIds.filter (· ≠ vaultId) := by
  obtain ⟨i, hinsert⟩ := @exists_insertVault vaultId vaultIds before insertAfter
  rw [hinsert, List.filter_append, List.filter_cons_of_neg (by simp), ← List.filter_append,
    List.take_append_drop]

/-- The vault goes next to the neighbour, on the side that is asked for. -/
theorem insertVault_middle (hbefore : before ≠ "") (hfront : before ∉ front)
    (insertAfter : Bool) :
    insertVault (front ++ before :: back) vaultId (some before) insertAfter =
      if insertAfter then front ++ before :: vaultId :: back
      else front ++ vaultId :: before :: back := by
  have hempty : before.isEmpty = false := by
    rw [Bool.eq_false_iff, ne_eq, String.isEmpty_iff]
    exact hbefore
  have hidx : (front ++ before :: back).idxOf? before = some front.length := by
    have hnone : front.idxOf? before = none := List.idxOf?_eq_none_iff.mpr hfront
    rw [List.idxOf?] at hnone
    rw [List.idxOf?, List.findIdx?_append, hnone, List.findIdx?_cons]
    simp
  rw [insertVault, hempty, hidx]
  cases insertAfter with
  | true =>
      have hlength : front.length + 1 = (front ++ [before]).length := by simp
      have hassoc : front ++ before :: back = (front ++ [before]) ++ back := by simp
      simp only [Bool.false_eq_true, if_false, if_true]
      rw [hlength, hassoc, List.take_left, List.drop_left, List.append_assoc]
      rfl
  | false =>
      simp only [Bool.false_eq_true, if_false]
      rw [List.take_left, List.drop_left]

/-- Shown from the front or in reverse, the vault comes right before it. -/
theorem infix_inDirection {α : Type} (front back : List α) (a b : α)
    (direction : VaultListSortDirection) :
    [a, b] <:+: inDirection direction
      (if direction = .desc then front ++ b :: a :: back else front ++ a :: b :: back) := by
  cases direction with
  | asc => exact ⟨front, back, by simp [inDirection]⟩
  | desc => exact ⟨back.reverse, front.reverse, by simp [inDirection]⟩

end

/-! ## Dropping onto a member -/

/-- The groups as the core lists them.  Where two groups had one id, the id would not
say which of them is the target of a drop; and a member without a text is no vault, as
the parser of the answer drops empty ids.  `listedGroups_of_load` proves all three of
every list that the core loads. -/
structure ListedGroups (groups : List VaultGroup) : Prop where
  ids_nodup : (groups.map (·.id)).Nodup
  vaults_nodup : (groups.flatMap (·.groupedVaults)).Nodup
  named : ∀ group ∈ groups, "" ∉ group.groupedVaults

/-! ## The groups that the core lists -/

def asGroupedVaultSortMode (value : String) : GroupedVaultSortMode :=
  if value = "name" then .name
  else if value = "state" then .state
  else if value = "last_accessed" then .lastAccessed
  else .order

def asSortDirection (value : String) : VaultListSortDirection :=
  if value = "desc" then .desc else .asc

/-- A group of the core's answer, as the list holds it. -/
def ofCore (group : Upriv.VaultGroup) : VaultGroup where
  id := group.id
  displayName := group.displayName
  order := group.order.toInt
  hidden := group.hidden
  groupedVaults := group.groupedVaults
  groupedVaultSort := some (asGroupedVaultSortMode group.groupedVaultSort)
  groupedVaultSortDirection := some (asSortDirection group.groupedVaultSortDirection)

theorem listedGroups_of_load {faults : Faults} {codec : TomlCodec VaultGroupsFile}
    {root : VaultRoot} {known : List String} {loaded : LoadedVaultGroups} {d d' : Disk}
    (hload : (loadVaultGroups faults codec root known).exec d = (.ok loaded, d')) :
    ListedGroups (loaded.groups.map ofCore) := by
  have hwf : HealedWf (healedGroups codec root d) := healedWf_healedGroups _ _ _
  rw [(loadVaultGroups_ok hload).1, List.map_map]
  constructor
  · rw [List.map_map]
    exact hwf.ids_nodup
  · rw [List.flatMap_map]
    exact hwf.vaults_nodup.sublist (.flatMap_right _ fun group _ => List.filter_sublist)
  · intro group hgroup hempty
    obtain ⟨source, hsource, rfl⟩ := List.mem_map.mp hgroup
    have hmem : "" ∈ source.groupedVaults := List.mem_of_mem_filter hempty
    exact ((hwf.settled source hsource).vaults.trimmed "" hmem).2 rfl

/-- The list's edit is the edit of the core's groups. -/
theorem assignVaultToGroup_ofCore (groups : List Upriv.VaultGroup)
    (vaultId targetGroupId : String) (before : Option String) (insertAfter : Bool) :
    assignVaultToGroup (groups.map ofCore) vaultId targetGroupId before insertAfter =
      (Shared.assignVaultToGroup groups vaultId targetGroupId before insertAfter).map ofCore := by
  rw [assignVaultToGroup, Shared.assignVaultToGroup, List.map_map, List.map_map]
  apply List.map_congr_left
  intro group _
  simp only [Function.comp_apply, apply_ite ofCore]
  rfl

/-! ## Where it is shown -/

/-- The list shows the item. -/
def Shows (vaults : List VaultListItem) (showHidden : Bool) (id : String) : Prop :=
  ∃ v ∈ vaults, v.id = id ∧ (showHidden || !isHidden v) = true

/-- The vault was dropped onto the member `before` of the group. -/
structure DroppedBefore (groups : List VaultGroup) (group : VaultGroup)
    (vaultId before : String) (next : List VaultGroup) : Prop where
  /-- One group has the vault, once. -/
  one : (next.filter (vaultId ∈ ·.groupedVaults)).map (·.id) = [group.id]
  once : (next.flatMap (·.groupedVaults)).Nodup
  others : next.map (VaultGroup.without vaultId) = groups.map (VaultGroup.without vaultId)
  shown : ∀ (R : JsRuntime) (vaults : List VaultListItem) (sort : VaultListSort)
    (options : Option VaultListHierarchyOptions), (vaults.map (·.id)).Nodup →
    Shows vaults (showHiddenOf options) vaultId → Shows vaults (showHiddenOf options) before →
    (showHiddenOf options || !group.hidden) = true →
    ∃ target members hiddenVaultCount,
      VaultListRootRow.group target members hiddenVaultCount ∈
        applyVaultListHierarchySort R vaults next sort options ∧
      target.id = group.id ∧ [vaultId, before] <:+: members.map (·.id)

section
variable {groups pre post : List VaultGroup} {group : VaultGroup} {vaultId : String}

theorem without_without :
    (group.without vaultId).without vaultId = group.without vaultId := by
  rw [VaultGroup.without, VaultGroup.without, List.filter_filter]
  simp

theorem not_mem_without : vaultId ∉ (group.without vaultId).groupedVaults := by
  simp [VaultGroup.without]

/-- The edit, around the target. -/
theorem assignVaultToGroup_middle {before : Option String} {insertAfter : Bool}
    (hids : ((pre ++ group :: post).map (·.id)).Nodup) :
    assignVaultToGroup (pre ++ group :: post) vaultId group.id before insertAfter =
      pre.map (VaultGroup.without vaultId) ++
        { group with groupedVaults :=
            insertVault (group.without vaultId).groupedVaults vaultId before insertAfter } ::
        post.map (VaultGroup.without vaultId) := by
  rw [List.map_append, List.map_cons, List.nodup_append] at hids
  obtain ⟨_, hpost, hpre⟩ := hids
  rw [assignVaultToGroup_eq, List.map_append, List.map_cons, if_pos rfl]
  congr 1
  · apply List.map_congr_left
    intro other hmem
    exact if_neg (hpre _ (List.mem_map_of_mem hmem) _ List.mem_cons_self)
  · congr 1
    apply List.map_congr_left
    intro other hmem
    apply if_neg
    intro hid
    exact (List.nodup_cons.mp hpost).1 (hid ▸ List.mem_map_of_mem hmem)

theorem flatMap_without (groups : List VaultGroup) :
    (groups.map (VaultGroup.without vaultId)).flatMap (·.groupedVaults) =
      (groups.flatMap (·.groupedVaults)).filter (· ≠ vaultId) := by
  rw [List.flatMap_map, List.filter_flatMap]
  rfl

/-- Afterwards the vault is listed once, next to all the others. -/
theorem assignVaultToGroup_perm {before : Option String} {insertAfter : Bool}
    (hids : (groups.map (·.id)).Nodup) (hgroup : group ∈ groups) :
    ((assignVaultToGroup groups vaultId group.id before insertAfter).flatMap
        (·.groupedVaults)).Perm
      (vaultId :: (groups.flatMap (·.groupedVaults)).filter (· ≠ vaultId)) := by
  obtain ⟨pre, post, rfl⟩ := List.append_of_mem hgroup
  rw [assignVaultToGroup_middle hids, List.flatMap_append, List.flatMap_cons, flatMap_without,
    flatMap_without, List.flatMap_append, List.flatMap_cons, List.filter_append,
    List.filter_append]
  refine (List.Perm.append_left _ (insertVault_perm.append_right _)).trans ?_
  rw [List.cons_append]
  exact List.perm_middle

theorem assignVaultToGroup_without {targetGroupId : String} {before : Option String}
    {insertAfter : Bool} :
    (assignVaultToGroup groups vaultId targetGroupId before insertAfter).map
        (VaultGroup.without vaultId) = groups.map (VaultGroup.without vaultId) := by
  rw [assignVaultToGroup_eq, List.map_map]
  apply List.map_congr_left
  intro other _
  rw [Function.comp_apply]
  split
  · have hsame := @filter_insertVault vaultId (other.without vaultId).groupedVaults before
      insertAfter
    simp only [VaultGroup.without, List.filter_filter, Bool.and_self] at hsame ⊢
    rw [hsame]
  · exact without_without

theorem assignVaultToGroup_one {before : Option String} {insertAfter : Bool}
    (hids : (groups.map (·.id)).Nodup) (hgroup : group ∈ groups) :
    ((assignVaultToGroup groups vaultId group.id before insertAfter).filter
      (vaultId ∈ ·.groupedVaults)).map (·.id) = [group.id] := by
  obtain ⟨pre, post, rfl⟩ := List.append_of_mem hgroup
  have hnone : ∀ others : List VaultGroup,
      (others.map (VaultGroup.without vaultId)).filter (vaultId ∈ ·.groupedVaults) = [] := by
    intro others
    rw [List.filter_eq_nil_iff]
    intro other hother
    obtain ⟨source, _, rfl⟩ := List.mem_map.mp hother
    simp [not_mem_without]
  have hmem : vaultId ∈ insertVault (group.without vaultId).groupedVaults vaultId before
      insertAfter := insertVault_perm.mem_iff.mpr List.mem_cons_self
  rw [assignVaultToGroup_middle hids, List.filter_append, hnone, List.nil_append,
    List.filter_cons, if_pos (decide_eq_true hmem), hnone]
  rfl

/-- A shown member. -/
theorem shownMembers_cons {vaults : List VaultListItem} {showHidden : Bool} {v : VaultListItem}
    (hids : (vaults.map (·.id)).Nodup) (hv : v ∈ vaults)
    (hshown : (showHidden || !isHidden v) = true) (ids : List String) :
    shownMembers vaults showHidden (v.id :: ids) = v :: shownMembers vaults showHidden ids := by
  have hfind : byId vaults v.id = some v := (byId_eq_some hids).mpr ⟨hv, rfl⟩
  rw [shownMembers, List.filterMap_cons, hfind, Option.filter_some, if_pos hshown]
  rfl

theorem shownMembers_append {vaults : List VaultListItem} {showHidden : Bool}
    (ids ids' : List String) :
    shownMembers vaults showHidden (ids ++ ids') =
      shownMembers vaults showHidden ids ++ shownMembers vaults showHidden ids' :=
  List.filterMap_append

/-- A vault that is dropped onto a member of a group that shows its own order is
then in that group alone, right before the member. -/
theorem assignVaultToGroup_droppedBefore {before : String} (hgroups : ListedGroups groups)
    (hgroup : group ∈ groups) (hsort : (groupedVaultSortOf group).mode = .order)
    (hbefore : before ∈ group.groupedVaults) (hne : before ≠ vaultId) :
    DroppedBefore groups group vaultId before
      (assignVaultToGroup groups vaultId group.id (some before)
        (groupedVaultDropInsertsAfter group)) := by
  have honce : ((assignVaultToGroup groups vaultId group.id (some before)
      (groupedVaultDropInsertsAfter group)).flatMap (·.groupedVaults)).Nodup := by
    rw [(assignVaultToGroup_perm hgroups.ids_nodup hgroup).nodup_iff, List.nodup_cons]
    exact ⟨by simp, hgroups.vaults_nodup.filter _⟩
  refine ⟨assignVaultToGroup_one hgroups.ids_nodup hgroup, honce, assignVaultToGroup_without, ?_⟩
  intro R vaults sort options hids hvault hmember hvisible
  obtain ⟨v, hv, rfl, hvShown⟩ := hvault
  obtain ⟨b, hb, rfl, hbShown⟩ := hmember
  -- The members around the one that the vault is dropped onto.
  obtain ⟨front, back, hsplit, hfront⟩ : ∃ front back,
      (group.without v.id).groupedVaults = front ++ b.id :: back ∧ b.id ∉ front := by
    have hkept : b.id ∈ (group.without v.id).groupedVaults :=
      List.mem_filter.mpr ⟨hbefore, decide_eq_true hne⟩
    exact List.eq_append_cons_of_mem hkept
  have hnamed : b.id ≠ "" := fun hempty => hgroups.named group hgroup (hempty ▸ hbefore)
  set inserted := insertVault (group.without v.id).groupedVaults v.id (some b.id)
    (groupedVaultDropInsertsAfter group) with hinserted
  set target : VaultGroup := { group with groupedVaults := inserted } with htarget
  have hmem : target ∈ assignVaultToGroup groups v.id group.id (some b.id)
      (groupedVaultDropInsertsAfter group) := by
    rw [assignVaultToGroup_eq]
    refine List.mem_map.mpr ⟨group, hgroup, ?_⟩
    rw [if_pos rfl]
  obtain ⟨hiddenVaultCount, hrow⟩ := exists_row_of_nodup R vaults sort honce hmem hvisible
  refine ⟨target, _, hiddenVaultCount, hrow, rfl, ?_⟩
  have hplace : target.groupedVaults = if (groupedVaultSortOf group).direction = .desc
      then front ++ b.id :: v.id :: back else front ++ v.id :: b.id :: back := by
    have hafter : groupedVaultDropInsertsAfter group =
        decide ((groupedVaultSortOf group).direction = .desc) := by
      rw [groupedVaultDropInsertsAfter, hsort]
      rfl
    rw [htarget, hinserted, hsplit, insertVault_middle hnamed hfront, hafter]
    simp only [decide_eq_true_eq]
  have hmembers : shownMembers vaults (showHiddenOf options) target.groupedVaults =
      if (groupedVaultSortOf group).direction = .desc
      then shownMembers vaults (showHiddenOf options) front ++ b :: v ::
        shownMembers vaults (showHiddenOf options) back
      else shownMembers vaults (showHiddenOf options) front ++ v :: b ::
        shownMembers vaults (showHiddenOf options) back := by
    rw [hplace]
    split
    · rw [shownMembers_append, shownMembers_cons hids hb hbShown, shownMembers_cons hids hv hvShown]
    · rw [shownMembers_append, shownMembers_cons hids hv hvShown, shownMembers_cons hids hb hbShown]
  have hsame : groupedVaultSortOf target = groupedVaultSortOf group := rfl
  rw [hmembers, hsame, applyGroupedVaultSort, if_pos hsort]
  exact (infix_inDirection _ _ v b _).map VaultListItem.id

end

/-- `inbox` is dropped onto `work` in a group that is shown in reverse. -/
theorem assignVaultToGroup_droppedBefore_inbox :
    DroppedBefore
      [⟨"home", "Home", 1, false, ["inbox"], none, none⟩,
        ⟨"job", "Job", 2, false, ["work", "taxes"], some .order, some .desc⟩]
      ⟨"job", "Job", 2, false, ["work", "taxes"], some .order, some .desc⟩ "inbox" "work"
      (assignVaultToGroup
        [⟨"home", "Home", 1, false, ["inbox"], none, none⟩,
          ⟨"job", "Job", 2, false, ["work", "taxes"], some .order, some .desc⟩]
        "inbox" "job" (some "work")
        (groupedVaultDropInsertsAfter
          ⟨"job", "Job", 2, false, ["work", "taxes"], some .order, some .desc⟩)) :=
  assignVaultToGroup_droppedBefore ⟨by decide, by decide, by decide⟩ (by simp) rfl (by simp)
    (by decide)

end Upriv.Shared.VaultList
