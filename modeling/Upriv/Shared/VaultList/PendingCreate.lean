import Upriv.Shared.VaultGroups.Membership
import Upriv.Support.JsText

/-!
# Group effects of pending creates

`domain/vault-list/pendingCreate.ts` and `domain/vault-groups/normalize.ts` of the
shared TypeScript code.  While a vault is being created the list shows it in its
group.  The effect is applied at once, rolled back when the create fails, and
merged into every fresh list of groups in between.
-/

namespace Upriv.Shared.VaultList

/-! ## Effects -/

/-- `String.prototype.trim`. -/
def jsTrim (s : String) : String := String.ofList (jsTrimChars s.toList)

/-- Blanks around ids and empty ids are dropped, and the sort gets its defaults. -/
def normalizeVaultGroup (raw : VaultGroup) : VaultGroup :=
  { raw with
    id := jsTrim raw.id
    displayName := jsTrim raw.displayName
    groupedVaults := (raw.groupedVaults.map jsTrim).filter (· ≠ "")
    groupedVaultSort := some (raw.groupedVaultSort.getD DEFAULT_GROUPED_VAULT_SORT.mode)
    groupedVaultSortDirection := some (raw.groupedVaultSortDirection.getD .asc) }

/-- The id of a vault that is being created. -/
structure VaultId where
  text : String
  trimmed : jsTrim text = text
  ne_empty : text ≠ ""
  deriving DecidableEq

/-- A group that is created together with its only vault. -/
structure CreatedGroup where
  group : VaultGroup
  vaultId : VaultId
  normal : normalizeVaultGroup group = group
  /-- `effect.group.groupedVaults[0]` is the vault. -/
  groupedVaults : group.groupedVaults = [vaultId.text]
  deriving DecidableEq

inductive PendingCreateGroupEffect
  | create (created : CreatedGroup)
  | existing (groupId : String) (vaultId : VaultId)
  deriving DecidableEq

/-- The vault that is being created. -/
def PendingCreateGroupEffect.vaultId : PendingCreateGroupEffect → String
  | .create created => created.vaultId.text
  | .existing _ vaultId => vaultId.text

/-- Mirrors `create_vault_group` of the core. -/
def nextVaultGroupOrder (groups : List VaultGroup) : ℚ :=
  let maxOrder := groups.foldl (fun highest group => max highest group.order) 0
  max (maxOrder + 1) (groups.length + 1)

theorem jsTrim_jsTrim (s : String) : jsTrim (jsTrim s) = jsTrim s := by
  rw [jsTrim, jsTrim, String.toList_ofList, jsTrimChars_jsTrimChars]

/-- Ids that normalizing leaves alone. -/
theorem map_jsTrim_filter_eq_self {ids : List String} :
    (ids.map jsTrim).filter (· ≠ "") = ids ↔ ∀ id ∈ ids, jsTrim id = id ∧ id ≠ "" := by
  constructor
  · intro h id hid
    rw [← h, List.mem_filter, List.mem_map] at hid
    obtain ⟨⟨source, _, rfl⟩, hne⟩ := hid
    exact ⟨jsTrim_jsTrim source, of_decide_eq_true hne⟩
  · intro h
    have hmap : ids.map jsTrim = ids :=
      (List.map_congr_left fun id hid => (h id hid).1).trans (List.map_id' ids)
    rw [hmap, List.filter_eq_self]
    exact fun id hid => decide_eq_true (h id hid).2

theorem normalizeVaultGroup_normalize (raw : VaultGroup) :
    normalizeVaultGroup (normalizeVaultGroup raw) = normalizeVaultGroup raw := by
  have hids : (((raw.groupedVaults.map jsTrim).filter (· ≠ "")).map jsTrim).filter (· ≠ "") =
      (raw.groupedVaults.map jsTrim).filter (· ≠ "") := by
    rw [map_jsTrim_filter_eq_self]
    intro id hid
    rw [List.mem_filter, List.mem_map] at hid
    obtain ⟨⟨source, _, rfl⟩, hne⟩ := hid
    exact ⟨jsTrim_jsTrim source, of_decide_eq_true hne⟩
  simp only [normalizeVaultGroup, jsTrim_jsTrim, hids, Option.getD_some]

/-- The group of `buildPendingCreateGroupEffect`. -/
def newGroup (id displayName : String) (vaultId : VaultId) (existing : List VaultGroup) :
    CreatedGroup where
  group := normalizeVaultGroup
    { id := id, displayName := displayName, order := nextVaultGroupOrder existing,
      hidden := false, groupedVaults := [vaultId.text], groupedVaultSort := none,
      groupedVaultSortDirection := none }
  vaultId := vaultId
  normal := normalizeVaultGroup_normalize _
  groupedVaults := by
    simp [normalizeVaultGroup, vaultId.trimmed, vaultId.ne_empty]

/-- Apply the membership at once, when the placeholder of the vault is shown. -/
def applyPendingCreateGroupEffect (groups : List VaultGroup) :
    PendingCreateGroupEffect → List VaultGroup
  | .create created =>
      if groups.any (·.id = created.group.id) then
        assignVaultToGroup groups created.vaultId.text created.group.id none false
      else groups ++ [created.group]
  | .existing groupId vaultId => assignVaultToGroup groups vaultId.text groupId none false

/-- Drop the membership when the create fails. -/
def rollbackPendingCreateGroupEffect (groups : List VaultGroup) :
    PendingCreateGroupEffect → List VaultGroup
  | .create created => groups.filter (·.id ≠ created.group.id)
  | .existing _ vaultId => removeVaultFromGroups groups vaultId.text

/-! ## Rolling back -/

/-- The same groups with the same members. -/
def SameMembers (groups groups' : List VaultGroup) : Prop :=
  groups.map (fun group => (group.id, group.groupedVaults)) =
    groups'.map fun group => (group.id, group.groupedVaults)

instance (groups groups' : List VaultGroup) : Decidable (SameMembers groups groups') :=
  inferInstanceAs (Decidable (_ = _))

/-- The effect was to make a group, and a group with its id is there already. -/
def PendingCreateGroupEffect.FindsGroup (groups : List VaultGroup) :
    PendingCreateGroupEffect → Prop
  | .create created => created.group.id ∈ groups.map (·.id)
  | .existing _ _ => False

section
variable {groups : List VaultGroup} {effect : PendingCreateGroupEffect}

theorem map_without_of_free {vaultId : String}
    (hfree : ∀ group ∈ groups, vaultId ∉ group.groupedVaults) :
    groups.map (VaultGroup.without vaultId) = groups :=
  (List.map_congr_left fun group hgroup => without_eq_self (hfree group hgroup)).trans
    (List.map_id' groups)

theorem any_id_iff {groupId : String} :
    groups.any (·.id = groupId) = true ↔ groupId ∈ groups.map (·.id) := by
  simp

/-- Unless it took over a group that was there, an effect is undone entirely. -/
theorem rollback_apply (hfree : ∀ group ∈ groups, effect.vaultId ∉ group.groupedVaults)
    (hnew : ¬ effect.FindsGroup groups) :
    rollbackPendingCreateGroupEffect (applyPendingCreateGroupEffect groups effect) effect =
      groups := by
  cases effect with
  | create created =>
      have hnot : created.group.id ∉ groups.map (·.id) := hnew
      have hkeep : groups.filter (·.id ≠ created.group.id) = groups := by
        rw [List.filter_eq_self]
        intro group hgroup
        exact decide_eq_true fun hid => hnot (hid ▸ List.mem_map_of_mem hgroup)
      rw [applyPendingCreateGroupEffect, if_neg (mt any_id_iff.mp hnot),
        rollbackPendingCreateGroupEffect, List.filter_append, hkeep, List.filter_singleton]
      simp
  | existing groupId vaultId =>
      rw [applyPendingCreateGroupEffect, rollbackPendingCreateGroupEffect,
        removeVaultFromGroups_eq, assignVaultToGroup_without]
      exact map_without_of_free hfree

/-- A group that was taken over is gone after the rollback. -/
theorem not_mem_rollback (hfinds : effect.FindsGroup groups) :
    ∃ groupId ∈ groups.map (·.id), groupId ∉
      (rollbackPendingCreateGroupEffect (applyPendingCreateGroupEffect groups effect)
        effect).map (·.id) := by
  cases effect with
  | create created =>
      refine ⟨created.group.id, hfinds, fun hmem => ?_⟩
      obtain ⟨group, hgroup, hid⟩ := List.mem_map.mp hmem
      exact of_decide_eq_true (List.mem_filter.mp hgroup).2 hid
  | existing groupId vaultId => exact absurd hfinds id

/-- Rolling back restores the groups exactly when the effect made no group, or one
whose id was free. -/
theorem rollback_apply_iff
    (hfree : ∀ group ∈ groups, effect.vaultId ∉ group.groupedVaults) :
    SameMembers (rollbackPendingCreateGroupEffect
        (applyPendingCreateGroupEffect groups effect) effect) groups ↔
      ¬ effect.FindsGroup groups := by
  constructor
  · intro hsame hfinds
    obtain ⟨groupId, hmem, hnot⟩ := not_mem_rollback hfinds
    have hids := congrArg (List.map Prod.fst) hsame
    rw [List.map_map, List.map_map] at hids
    exact hnot (hids ▸ hmem)
  · intro hnew
    rw [rollback_apply hfree hnew]
    rfl

end

def travelId : VaultId := ⟨"travel", by decide, by decide⟩

/-- The group `work` of another vault is there. -/
def workListed : List VaultGroup :=
  [⟨"work", "Work", 1, false, ["notes"], some .order, some .asc⟩]

theorem rollback_apply_iff_existing :
    SameMembers (rollbackPendingCreateGroupEffect
        (applyPendingCreateGroupEffect workListed (.existing "work" travelId))
        (.existing "work" travelId)) workListed ↔
      ¬ (PendingCreateGroupEffect.existing "work" travelId).FindsGroup workListed :=
  rollback_apply_iff (by decide)

/-- The group `work` was there before and is gone after the rollback. -/
theorem rollback_apply_lost :
    (∀ group ∈ workListed, travelId.text ∉ group.groupedVaults) ∧
      ¬ SameMembers (rollbackPendingCreateGroupEffect
        (applyPendingCreateGroupEffect workListed (.create (newGroup "work" "Work" travelId [])))
        (.create (newGroup "work" "Work" travelId []))) workListed := by
  decide +kernel

/-! ## Merging into a fresh list -/

/-- One round of the loop of `mergePendingCreatingGroups`. -/
def mergeEffect (next : List VaultGroup) : PendingCreateGroupEffect → List VaultGroup
  | .create created =>
      match next.find? (·.id = created.group.id) with
      | some existing =>
          if created.vaultId.text ∉ existing.groupedVaults then
            assignVaultToGroup next created.vaultId.text created.group.id none false
          else next
      | none => next ++ [created.group]
  | .existing groupId vaultId =>
      if next.any (vaultId.text ∈ ·.groupedVaults) then next
      else assignVaultToGroup next vaultId.text groupId none false

def mergePendingCreatingGroups (listed : List VaultGroup)
    (pending : List PendingCreateGroupEffect) : List VaultGroup :=
  pending.foldl mergeEffect (listed.map normalizeVaultGroup)

/-- The group with this id lists the vault. -/
def Lists (groups : List VaultGroup) (groupId vaultId : String) : Prop :=
  ∃ group ∈ groups, group.id = groupId ∧ vaultId ∈ group.groupedVaults

instance (groups : List VaultGroup) (groupId vaultId : String) :
    Decidable (Lists groups groupId vaultId) :=
  inferInstanceAs (Decidable (∃ group ∈ groups, _))

/-- Each vault is in at most one group. -/
def ExclusiveMembers (groups : List VaultGroup) : Prop :=
  ∀ groupId groupId' vaultId, Lists groups groupId vaultId → Lists groups groupId' vaultId →
    groupId = groupId'

/-- What a merge has to give. -/
structure MergesPending (listed : List VaultGroup) (pending : List PendingCreateGroupEffect) :
    Prop where
  exclusive : ExclusiveMembers (mergePendingCreatingGroups listed pending)
  ids_nodup : ((mergePendingCreatingGroups listed pending).map (·.id)).Nodup
  /-- Every listed group is there, with other members at most. -/
  present : ∀ group ∈ listed.map normalizeVaultGroup,
    ∃ group' ∈ mergePendingCreatingGroups listed pending,
      group' = { group with groupedVaults := group'.groupedVaults }
  again : mergePendingCreatingGroups (mergePendingCreatingGroups listed pending) pending =
    mergePendingCreatingGroups listed pending

/-- The id of the group that an effect makes. -/
def PendingCreateGroupEffect.created? : PendingCreateGroupEffect → Option String
  | .create created => some created.group.id
  | .existing _ _ => none

/-- The ids that there are when some effects have been merged. -/
def idsAfter (listed : List VaultGroup) (done : List PendingCreateGroupEffect) : List String :=
  (listed.map normalizeVaultGroup).map (·.id) ++ done.filterMap (·.created?)

/-- A vault that a listed group has. -/
def IsListed (listed : List VaultGroup) (vaultId : String) : Prop :=
  ∃ groupId, Lists (listed.map normalizeVaultGroup) groupId vaultId

/-- The effect puts its vault in a group, if these ids are there. -/
def PendingCreateGroupEffect.Houses (ids : List String) : PendingCreateGroupEffect → Prop
  | .create _ => True
  | .existing groupId _ => groupId ∈ ids

/-- A vault that is in a group when some effects have been merged: a listed group has it,
or one of the effects put it in a group. -/
def IsHoused (listed : List VaultGroup) (done : List PendingCreateGroupEffect)
    (vaultId : String) : Prop :=
  IsListed listed vaultId ∨
    ∃ before effect after, done = before ++ effect :: after ∧ effect.vaultId = vaultId ∧
      effect.Houses (idsAfter listed before)

/-- No vault comes with two groups. -/
def OneGroupEach (pending : List PendingCreateGroupEffect) : Prop :=
  ∀ created created', .create created ∈ pending → .create created' ∈ pending →
    created.vaultId.text = created'.vaultId.text → created.group.id = created'.group.id

/-- What the effects have to be like. -/
structure Mergeable (listed : List VaultGroup) (pending : List PendingCreateGroupEffect) :
    Prop where
  oneGroup : OneGroupEach pending
  /-- A new group is made for a vault that is in none. -/
  fresh : ∀ done created rest, pending = done ++ .create created :: rest →
    created.group.id ∉ idsAfter listed done → ¬ IsHoused listed done created.vaultId.text
  /-- A vault that joins a group which is there in the end is in a group then. -/
  joined : ∀ groupId vaultId, .existing groupId vaultId ∈ pending →
    groupId ∈ idsAfter listed pending → IsHoused listed pending vaultId.text

/-! ## One effect -/

section
variable {next groups : List VaultGroup} {effect : PendingCreateGroupEffect}
  {groupId vaultId targetId other : String}

theorem map_id_assign {before : Option String} {insertAfter : Bool} :
    (assignVaultToGroup groups vaultId targetId before insertAfter).map (·.id) =
      groups.map (·.id) := by
  rw [assignVaultToGroup_eq, List.map_map]
  apply List.map_congr_left
  intro group _
  rw [Function.comp_apply]
  split <;> rfl

/-- After a move the vault is in the target, if there is one, and nowhere else. -/
theorem lists_assign {before : Option String} {insertAfter : Bool} :
    Lists (assignVaultToGroup groups vaultId targetId before insertAfter) groupId other ↔
      if other = vaultId then groupId = targetId ∧ targetId ∈ groups.map (·.id)
      else Lists groups groupId other := by
  rw [Lists, assignVaultToGroup_eq]
  simp only [List.mem_map, exists_exists_and_eq_and]
  split
  · rename_i hsame
    subst hsame
    constructor
    · rintro ⟨group, hgroup, hid, hmem⟩
      split at hmem
      · rename_i htarget
        rw [if_pos htarget] at hid
        exact ⟨hid.symm.trans htarget, group, hgroup, htarget⟩
      · exact absurd hmem not_mem_without
    · rintro ⟨rfl, group, hgroup, rfl⟩
      refine ⟨group, hgroup, ?_, ?_⟩
      · rw [if_pos rfl]
      · rw [if_pos rfl]
        exact insertVault_perm.mem_iff.mpr List.mem_cons_self
  · rename_i hother
    have hmember : ∀ group : VaultGroup, other ∈ (if group.id = targetId then
        { group with groupedVaults :=
            insertVault (group.without vaultId).groupedVaults vaultId before insertAfter }
        else group.without vaultId).groupedVaults ↔ other ∈ group.groupedVaults := by
      intro group
      split
      · rw [insertVault_perm.mem_iff, List.mem_cons, or_iff_right hother]
        simp [VaultGroup.without, hother]
      · simp [VaultGroup.without, hother]
    have hids : ∀ group : VaultGroup, (if group.id = targetId then
        { group with groupedVaults :=
            insertVault (group.without vaultId).groupedVaults vaultId before insertAfter }
        else group.without vaultId).id = group.id := by
      intro group
      split <;> rfl
    simp only [hmember, hids]
    rfl

theorem any_lists_iff :
    next.any (vaultId ∈ ·.groupedVaults) = true ↔ ∃ groupId, Lists next groupId vaultId := by
  rw [List.any_eq_true]
  constructor
  · rintro ⟨group, hgroup, hmem⟩
    exact ⟨group.id, group, hgroup, rfl, of_decide_eq_true hmem⟩
  · rintro ⟨_, group, hgroup, _, hmem⟩
    exact ⟨group, hgroup, decide_eq_true hmem⟩

theorem mergeEffect_create_new {created : CreatedGroup}
    (hnew : created.group.id ∉ next.map (·.id)) :
    mergeEffect next (.create created) = next ++ [created.group] := by
  rw [mergeEffect, find?_key_eq_none.mpr hnew]

theorem mergeEffect_create_taken {created : CreatedGroup} (hids : (next.map (·.id)).Nodup)
    (htaken : created.group.id ∈ next.map (·.id)) :
    mergeEffect next (.create created) =
      if Lists next created.group.id created.vaultId.text then next
      else assignVaultToGroup next created.vaultId.text created.group.id none false := by
  obtain ⟨group, hgroup, hid⟩ := List.mem_map.mp htaken
  have hlists : Lists next created.group.id created.vaultId.text ↔
      created.vaultId.text ∈ group.groupedVaults := by
    constructor
    · rintro ⟨group', hgroup', hid', hmem⟩
      rwa [List.inj_on_of_nodup_map hids hgroup hgroup' (hid.trans hid'.symm)]
    · exact fun hmem => ⟨group, hgroup, hid, hmem⟩
  rw [mergeEffect, (find?_key_eq_some hids).mpr ⟨hgroup, hid⟩]
  simp only [hlists, ite_not]

theorem mem_map_id_mergeEffect :
    groupId ∈ (mergeEffect next effect).map (·.id) ↔
      groupId ∈ next.map (·.id) ∨ effect.created? = some groupId := by
  cases effect with
  | create created =>
      rw [mergeEffect, PendingCreateGroupEffect.created?, Option.some.injEq]
      split
      · rename_i existing hfind
        have htaken : created.group.id ∈ next.map (·.id) := by
          by_contra hnew
          rw [find?_key_eq_none.mpr hnew] at hfind
          cases hfind
        have hids : groupId ∈ next.map (·.id) ∨ created.group.id = groupId ↔
            groupId ∈ next.map (·.id) :=
          or_iff_left_of_imp fun heq => heq ▸ htaken
        rw [hids]
        split
        · rw [map_id_assign]
        · rfl
      · rw [List.map_append, List.mem_append, List.map_singleton, List.mem_singleton, eq_comm]
  | existing targetId vaultId =>
      rw [mergeEffect, PendingCreateGroupEffect.created?]
      split
      · simp
      · rw [map_id_assign]
        simp

theorem nodup_mergeEffect (hids : (next.map (·.id)).Nodup) :
    ((mergeEffect next effect).map (·.id)).Nodup := by
  cases effect with
  | create created =>
      rw [mergeEffect]
      split
      · split
        · rwa [map_id_assign]
        · exact hids
      · rename_i hnone
        rw [find?_key_eq_none] at hnone
        rw [List.map_append, List.nodup_append]
        refine ⟨hids, List.nodup_singleton _, ?_⟩
        rintro _ hmem _ hlast rfl
        rw [List.map_singleton, List.mem_singleton] at hlast
        exact hnone (hlast ▸ hmem)
  | existing targetId vaultId =>
      rw [mergeEffect]
      split
      · exact hids
      · rwa [map_id_assign]

/-- An effect moves its own vault only. -/
theorem lists_mergeEffect_other (hother : other ≠ effect.vaultId) :
    Lists (mergeEffect next effect) groupId other ↔ Lists next groupId other := by
  cases effect with
  | create created =>
      have hcreated : other ≠ created.vaultId.text := hother
      rw [mergeEffect]
      split
      · split
        · rw [lists_assign, if_neg hcreated]
        · rfl
      · constructor
        · rintro ⟨group, hgroup, hid, hmem⟩
          rcases List.mem_append.mp hgroup with hgroup | hlast
          · exact ⟨group, hgroup, hid, hmem⟩
          · rw [List.mem_singleton.mp hlast, created.groupedVaults] at hmem
            exact absurd (List.mem_singleton.mp hmem) hcreated
        · rintro ⟨group, hgroup, hid, hmem⟩
          exact ⟨group, List.mem_append_left _ hgroup, hid, hmem⟩
  | existing targetId vaultId =>
      have hvault : other ≠ vaultId.text := hother
      rw [mergeEffect]
      split
      · rfl
      · rw [lists_assign, if_neg hvault]

/-- Where an effect leaves its vault. -/
theorem lists_mergeEffect_new {created : CreatedGroup}
    (hnew : created.group.id ∉ next.map (·.id)) :
    Lists (mergeEffect next (.create created)) groupId created.vaultId.text ↔
      Lists next groupId created.vaultId.text ∨ groupId = created.group.id := by
  rw [mergeEffect_create_new hnew]
  constructor
  · rintro ⟨group, hgroup, hid, hmem⟩
    rcases List.mem_append.mp hgroup with hgroup | hlast
    · exact .inl ⟨group, hgroup, hid, hmem⟩
    · rw [List.mem_singleton.mp hlast] at hid
      exact .inr hid.symm
  · rintro (⟨group, hgroup, hid, hmem⟩ | rfl)
    · exact ⟨group, List.mem_append_left _ hgroup, hid, hmem⟩
    · refine ⟨created.group, List.mem_append_right _ List.mem_cons_self, rfl, ?_⟩
      rw [created.groupedVaults]
      exact List.mem_cons_self

theorem lists_mergeEffect_taken {created : CreatedGroup} (hids : (next.map (·.id)).Nodup)
    (htaken : created.group.id ∈ next.map (·.id)) :
    Lists (mergeEffect next (.create created)) groupId created.vaultId.text ↔
      if Lists next created.group.id created.vaultId.text then
        Lists next groupId created.vaultId.text
      else groupId = created.group.id := by
  rw [mergeEffect_create_taken hids htaken]
  split
  · rfl
  · rw [lists_assign, if_pos rfl, and_iff_left htaken]

theorem lists_mergeEffect_existing {vaultId : VaultId} :
    Lists (mergeEffect next (.existing targetId vaultId)) groupId vaultId.text ↔
      if next.any (vaultId.text ∈ ·.groupedVaults) then Lists next groupId vaultId.text
      else groupId = targetId ∧ targetId ∈ next.map (·.id) := by
  rw [mergeEffect]
  split
  · rfl
  · rw [lists_assign, if_pos rfl]

/-- A vault is in a group after an effect if it was before or the effect is for it. -/
theorem exists_lists_mergeEffect (hids : (next.map (·.id)).Nodup) :
    (∃ groupId, Lists (mergeEffect next effect) groupId vaultId) ↔
      (∃ groupId, Lists next groupId vaultId) ∨
        effect.vaultId = vaultId ∧ effect.Houses (next.map (·.id)) := by
  by_cases hvault : effect.vaultId = vaultId
  swap
  · rw [or_iff_left fun h => hvault h.1]
    exact exists_congr fun groupId => lists_mergeEffect_other (Ne.symm hvault)
  subst hvault
  cases effect with
  | create created =>
      refine iff_of_true ⟨created.group.id, ?_⟩ (.inr ⟨rfl, trivial⟩)
      by_cases htaken : created.group.id ∈ next.map (·.id)
      · refine (lists_mergeEffect_taken hids htaken).mpr ?_
        split
        · assumption
        · rfl
      · exact (lists_mergeEffect_new htaken).mpr (.inr rfl)
  | existing targetId joined =>
      have hwhere (groupId : String) := @lists_mergeEffect_existing next groupId targetId joined
      simp only [PendingCreateGroupEffect.vaultId, hwhere]
      by_cases hany : next.any (joined.text ∈ ·.groupedVaults) = true
      · simp only [if_pos hany]
        exact iff_of_true (any_lists_iff.mp hany) (.inl (any_lists_iff.mp hany))
      · rw [or_iff_right fun h => hany (any_lists_iff.mpr h)]
        simp only [if_neg hany]
        constructor
        · rintro ⟨_, _, htarget⟩
          exact ⟨trivial, htarget⟩
        · rintro ⟨_, htarget⟩
          exact ⟨targetId, rfl, htarget⟩

/-- Membership stays exclusive if no new group is made for a vault that has one. -/
theorem exclusive_mergeEffect (hids : (next.map (·.id)).Nodup) (hexclusive : ExclusiveMembers next)
    (hfresh : ∀ created, effect = .create created → created.group.id ∉ next.map (·.id) →
      ¬ ∃ groupId, Lists next groupId created.vaultId.text) :
    ExclusiveMembers (mergeEffect next effect) := by
  intro groupId groupId' vaultId hlists hlists'
  by_cases hvault : vaultId = effect.vaultId
  swap
  · rw [lists_mergeEffect_other hvault] at hlists hlists'
    exact hexclusive _ _ _ hlists hlists'
  subst hvault
  cases effect with
  | create created =>
      rw [PendingCreateGroupEffect.vaultId] at hlists hlists'
      by_cases htaken : created.group.id ∈ next.map (·.id)
      · rw [lists_mergeEffect_taken hids htaken] at hlists hlists'
        split at hlists
        · rename_i hthere
          rw [if_pos hthere] at hlists'
          exact hexclusive _ _ _ hlists hlists'
        · rename_i hthere
          rw [if_neg hthere] at hlists'
          exact hlists.trans hlists'.symm
      · have hnone := hfresh created rfl htaken
        rw [lists_mergeEffect_new htaken] at hlists hlists'
        exact (hlists.resolve_left fun hold => hnone ⟨_, hold⟩).trans
          (hlists'.resolve_left fun hold => hnone ⟨_, hold⟩).symm
  | existing targetId joined =>
      rw [PendingCreateGroupEffect.vaultId, lists_mergeEffect_existing] at hlists hlists'
      split at hlists
      · rename_i hthere
        rw [if_pos hthere] at hlists'
        exact hexclusive _ _ _ hlists hlists'
      · rename_i hthere
        rw [if_neg hthere] at hlists'
        exact hlists.1.trans hlists'.1.symm

/-- A vault in the group that it comes with stays where it is. -/
theorem lists_mergeEffect_settled (hids : (next.map (·.id)).Nodup)
    (hthere : Lists next targetId vaultId)
    (hsame : ∀ created, effect = .create created → created.vaultId.text = vaultId →
      created.group.id = targetId) :
    Lists (mergeEffect next effect) groupId vaultId ↔ Lists next groupId vaultId := by
  by_cases hvault : vaultId = effect.vaultId
  swap
  · exact lists_mergeEffect_other hvault
  subst hvault
  cases effect with
  | create created =>
      have hgroup := hsame created rfl rfl
      subst hgroup
      have htaken : created.group.id ∈ next.map (·.id) := by
        obtain ⟨group, hgroup, hid, _⟩ := hthere
        exact hid ▸ List.mem_map_of_mem hgroup
      rw [PendingCreateGroupEffect.vaultId] at hthere ⊢
      rw [lists_mergeEffect_taken hids htaken, if_pos hthere]
  | existing joinedId joined =>
      rw [PendingCreateGroupEffect.vaultId] at hthere ⊢
      rw [lists_mergeEffect_existing, if_pos (any_lists_iff.mpr ⟨targetId, hthere⟩)]

/-- A list of normalized groups stays one. -/
theorem normal_assign {id : VaultId}
    (hnormal : ∀ group ∈ groups, normalizeVaultGroup group = group) :
    ∀ group ∈ assignVaultToGroup groups id.text targetId none false,
      normalizeVaultGroup group = group := by
  intro group hgroup
  rw [assignVaultToGroup_eq] at hgroup
  obtain ⟨source, hsource, rfl⟩ := List.mem_map.mp hgroup
  have hmembers (members : List String)
      (hsub : ∀ member ∈ members, member = id.text ∨ member ∈ source.groupedVaults) :
      normalizeVaultGroup { source with groupedVaults := members } =
        { source with groupedVaults := members } := by
    have hsource := hnormal source hsource
    rw [normalizeVaultGroup, VaultGroup.mk.injEq] at hsource ⊢
    obtain ⟨hid, hname, horder, hhidden, hvaults, hsort⟩ := hsource
    refine ⟨hid, hname, horder, hhidden, ?_, hsort⟩
    rw [map_jsTrim_filter_eq_self] at hvaults ⊢
    intro member hmember
    rcases hsub member hmember with rfl | hmember
    · exact ⟨id.trimmed, id.ne_empty⟩
    · exact hvaults member hmember
  split
  · apply hmembers
    intro member hmember
    rw [insertVault_perm.mem_iff, List.mem_cons] at hmember
    exact hmember.imp_right List.mem_of_mem_filter
  · exact hmembers _ fun member hmember => .inr (List.mem_of_mem_filter hmember)

theorem normal_mergeEffect (hnormal : ∀ group ∈ next, normalizeVaultGroup group = group) :
    ∀ group ∈ mergeEffect next effect, normalizeVaultGroup group = group := by
  cases effect with
  | create created =>
      rw [mergeEffect]
      split
      · split
        · exact normal_assign hnormal
        · exact hnormal
      · intro group hgroup
        rcases List.mem_append.mp hgroup with hgroup | hlast
        · exact hnormal group hgroup
        · rw [List.mem_singleton.mp hlast]
          exact created.normal
  | existing targetId vaultId =>
      rw [mergeEffect]
      split
      · exact hnormal
      · exact normal_assign hnormal

/-- No effect drops a group or edits more than its members. -/
theorem present_mergeEffect {group : VaultGroup} (hgroup : group ∈ next) :
    ∃ group' ∈ mergeEffect next effect,
      group' = { group with groupedVaults := group'.groupedVaults } := by
  have hassign (vaultId targetId : String) :
      ∃ group' ∈ assignVaultToGroup next vaultId targetId none false,
        group' = { group with groupedVaults := group'.groupedVaults } := by
    rw [assignVaultToGroup_eq]
    refine ⟨_, List.mem_map_of_mem hgroup, ?_⟩
    split <;> rfl
  cases effect with
  | create created =>
      rw [mergeEffect]
      split
      · split
        · exact hassign _ _
        · exact ⟨group, hgroup, rfl⟩
      · exact ⟨group, List.mem_append_left _ hgroup, rfl⟩
  | existing targetId vaultId =>
      rw [mergeEffect]
      split
      · exact ⟨group, hgroup, rfl⟩
      · exact hassign _ _

end

/-! ## All effects -/

section
variable {listed next : List VaultGroup} {pending done rest : List PendingCreateGroupEffect}
  {effect : PendingCreateGroupEffect} {groupId vaultId : String}

theorem mergePendingCreatingGroups_append :
    mergePendingCreatingGroups listed (done ++ rest) =
      rest.foldl mergeEffect (mergePendingCreatingGroups listed done) :=
  List.foldl_append

theorem mergePendingCreatingGroups_concat :
    mergePendingCreatingGroups listed (done ++ [effect]) =
      mergeEffect (mergePendingCreatingGroups listed done) effect :=
  mergePendingCreatingGroups_append

theorem mem_map_id_merge :
    groupId ∈ (mergePendingCreatingGroups listed done).map (·.id) ↔
      groupId ∈ idsAfter listed done := by
  induction done using List.reverseRecOn with
  | nil => simp [mergePendingCreatingGroups, idsAfter]
  | append_singleton done effect ih =>
      rw [mergePendingCreatingGroups_concat, mem_map_id_mergeEffect, ih, idsAfter, idsAfter,
        List.filterMap_append, ← List.append_assoc, List.mem_append (t := [effect].filterMap _)]
      apply or_congr_right
      cases hcreated : effect.created? <;> simp [hcreated, eq_comm]

theorem nodup_merge (hids : ((listed.map normalizeVaultGroup).map (·.id)).Nodup) :
    ((mergePendingCreatingGroups listed done).map (·.id)).Nodup := by
  induction done using List.reverseRecOn with
  | nil => exact hids
  | append_singleton done effect ih =>
      rw [mergePendingCreatingGroups_concat]
      exact nodup_mergeEffect ih

theorem normal_merge :
    ∀ group ∈ mergePendingCreatingGroups listed done, normalizeVaultGroup group = group := by
  induction done using List.reverseRecOn with
  | nil =>
      intro group hgroup
      obtain ⟨raw, _, rfl⟩ := List.mem_map.mp hgroup
      exact normalizeVaultGroup_normalize raw
  | append_singleton done effect ih =>
      rw [mergePendingCreatingGroups_concat]
      exact normal_mergeEffect ih

theorem present_merge {group : VaultGroup} (hgroup : group ∈ listed.map normalizeVaultGroup) :
    ∃ group' ∈ mergePendingCreatingGroups listed done,
      group' = { group with groupedVaults := group'.groupedVaults } := by
  induction done using List.reverseRecOn with
  | nil => exact ⟨group, hgroup, rfl⟩
  | append_singleton done effect ih =>
      rw [mergePendingCreatingGroups_concat]
      obtain ⟨group', hgroup', hsame⟩ := ih
      obtain ⟨group'', hgroup'', hsame'⟩ := @present_mergeEffect _ effect _ hgroup'
      refine ⟨group'', hgroup'', ?_⟩
      rw [hsame', hsame]

theorem lists_foldl_settled {targetId : String} (hids : (next.map (·.id)).Nodup)
    (hthere : Lists next targetId vaultId)
    (hsame : ∀ created, .create created ∈ rest → created.vaultId.text = vaultId →
      created.group.id = targetId) :
    Lists (rest.foldl mergeEffect next) groupId vaultId ↔ Lists next groupId vaultId := by
  induction rest generalizing next with
  | nil => rfl
  | cons effect rest ih =>
      have hstep (groupId : String) := @lists_mergeEffect_settled next effect groupId vaultId
        targetId hids hthere fun created heq => hsame created (heq ▸ List.mem_cons_self)
      rw [List.foldl_cons, ih (nodup_mergeEffect hids) ((hstep targetId).mpr hthere)
        fun created hcreated => hsame created (List.mem_cons_of_mem _ hcreated), hstep]

theorem isHoused_concat :
    IsHoused listed (done ++ [effect]) vaultId ↔
      IsHoused listed done vaultId ∨
        effect.vaultId = vaultId ∧ effect.Houses (idsAfter listed done) := by
  constructor
  · rintro (hlisted | ⟨before, housing, after, hsplit, hvault, hhouses⟩)
    · exact .inl (.inl hlisted)
    · rcases List.eq_nil_or_concat' after with rfl | ⟨after, last, rfl⟩
      · obtain ⟨rfl, hlast⟩ := List.append_inj' hsplit rfl
        cases hlast
        exact .inr ⟨hvault, hhouses⟩
      · rw [← List.cons_append, ← List.append_assoc] at hsplit
        obtain ⟨rfl, -⟩ := List.append_inj' hsplit rfl
        exact .inl (.inr ⟨before, housing, after, rfl, hvault, hhouses⟩)
  · rintro ((hlisted | ⟨before, housing, after, rfl, hvault, hhouses⟩) | ⟨hvault, hhouses⟩)
    · exact .inl hlisted
    · refine .inr ⟨before, housing, after ++ [effect], ?_, hvault, hhouses⟩
      rw [List.append_assoc, List.cons_append]
    · exact .inr ⟨done, effect, [], rfl, hvault, hhouses⟩

theorem houses_merge :
    effect.Houses ((mergePendingCreatingGroups listed done).map (·.id)) ↔
      effect.Houses (idsAfter listed done) := by
  cases effect with
  | create created => rfl
  | existing groupId vaultId => exact mem_map_id_merge

/-- The vaults that are in a group after the effects. -/
theorem exists_lists_merge (hids : ((listed.map normalizeVaultGroup).map (·.id)).Nodup) :
    (∃ groupId, Lists (mergePendingCreatingGroups listed done) groupId vaultId) ↔
      IsHoused listed done vaultId := by
  induction done using List.reverseRecOn with
  | nil =>
      refine (or_iff_left ?_).symm
      rintro ⟨before, effect, after, hsplit, -⟩
      simp at hsplit
  | append_singleton done effect ih =>
      rw [mergePendingCreatingGroups_concat, exists_lists_mergeEffect (nodup_merge hids), ih,
        houses_merge, isHoused_concat]

theorem map_normalize_merge :
    (mergePendingCreatingGroups listed pending).map normalizeVaultGroup =
      mergePendingCreatingGroups listed pending :=
  (List.map_congr_left normal_merge).trans (List.map_id' _)

end

/-! ## Merging twice -/

section
variable {listed : List VaultGroup} {pending done rest : List PendingCreateGroupEffect}
  {groupId : String}

theorem exclusive_merge (hids : ((listed.map normalizeVaultGroup).map (·.id)).Nodup)
    (hexclusive : ExclusiveMembers (listed.map normalizeVaultGroup))
    (hmergeable : Mergeable listed pending) (hsplit : pending = done ++ rest) :
    ExclusiveMembers (mergePendingCreatingGroups listed done) := by
  induction done using List.reverseRecOn generalizing rest with
  | nil => exact hexclusive
  | append_singleton done effect ih =>
      rw [List.append_assoc, List.singleton_append] at hsplit
      rw [mergePendingCreatingGroups_concat]
      refine exclusive_mergeEffect (nodup_merge hids) (ih hsplit) ?_
      rintro created rfl hnew
      rw [mem_map_id_merge] at hnew
      rw [exists_lists_merge hids]
      exact hmergeable.fresh done created rest hsplit hnew

/-- A vault is in the group that it comes with. -/
theorem lists_create (hids : ((listed.map normalizeVaultGroup).map (·.id)).Nodup)
    (created : CreatedGroup) :
    Lists (mergePendingCreatingGroups listed (done ++ [.create created])) created.group.id
      created.vaultId.text := by
  rw [mergePendingCreatingGroups_concat]
  by_cases htaken : created.group.id ∈ (mergePendingCreatingGroups listed done).map (·.id)
  · rw [lists_mergeEffect_taken (nodup_merge hids) htaken]
    split
    · assumption
    · rfl
  · exact (lists_mergeEffect_new htaken).mpr (.inr rfl)

/-- When it comes with no other, the effects after leave it where it is. -/
theorem lists_after_create (hids : ((listed.map normalizeVaultGroup).map (·.id)).Nodup)
    {created : CreatedGroup} (honeGroup : OneGroupEach (done ++ .create created :: rest)) :
    Lists (mergePendingCreatingGroups listed (done ++ .create created :: rest)) groupId
        created.vaultId.text ↔
      Lists (mergePendingCreatingGroups listed (done ++ [.create created])) groupId
        created.vaultId.text := by
  rw [List.append_cons, mergePendingCreatingGroups_append]
  refine lists_foldl_settled (nodup_merge hids) (lists_create hids created) ?_
  intro created' hcreated' hvault
  refine honeGroup created' created ?_ ?_ hvault
  · exact List.mem_append_right _ (List.mem_cons_of_mem _ hcreated')
  · exact List.mem_append_right _ List.mem_cons_self

/-- A second round of any effect does nothing. -/
theorem mergeEffect_merge (hids : ((listed.map normalizeVaultGroup).map (·.id)).Nodup)
    (hmergeable : Mergeable listed pending) :
    ∀ effect ∈ pending, mergeEffect (mergePendingCreatingGroups listed pending) effect =
      mergePendingCreatingGroups listed pending := by
  intro effect heffect
  cases effect with
  | create created =>
      obtain ⟨done, rest, rfl⟩ := List.append_of_mem heffect
      have hthere := (lists_after_create hids hmergeable.oneGroup).mpr (lists_create hids created)
      have htaken : created.group.id ∈ (mergePendingCreatingGroups listed
          (done ++ .create created :: rest)).map (·.id) := by
        obtain ⟨group, hgroup, hid, _⟩ := hthere
        exact hid ▸ List.mem_map_of_mem hgroup
      rw [mergeEffect_create_taken (nodup_merge hids) htaken, if_pos hthere]
  | existing targetId vaultId =>
      rw [mergeEffect]
      split
      · rfl
      · rename_i hnone
        rw [any_lists_iff, exists_lists_merge hids] at hnone
        have hgone : targetId ∉ (mergePendingCreatingGroups listed pending).map (·.id) := by
          rw [mem_map_id_merge]
          exact fun hthere => hnone (hmergeable.joined targetId vaultId heffect hthere)
        rw [assignVaultToGroup_eq]
        refine (List.map_congr_left fun group hgroup => ?_).trans (List.map_id' _)
        have hid : group.id ≠ targetId := by
          rintro rfl
          exact hgone (List.mem_map_of_mem hgroup)
        rw [if_neg hid]
        refine without_eq_self fun hmem => hnone ?_
        exact (exists_lists_merge hids).mp ⟨group.id, group, hgroup, rfl, hmem⟩

theorem mergePendingCreatingGroups_again
    (hids : ((listed.map normalizeVaultGroup).map (·.id)).Nodup)
    (hmergeable : Mergeable listed pending) :
    mergePendingCreatingGroups (mergePendingCreatingGroups listed pending) pending =
      mergePendingCreatingGroups listed pending := by
  have hstep := mergeEffect_merge hids hmergeable
  rw [mergePendingCreatingGroups, map_normalize_merge]
  generalize mergePendingCreatingGroups listed pending = merged at hstep ⊢
  clear hmergeable
  induction pending with
  | nil => rfl
  | cons effect pending ih =>
      rw [List.foldl_cons, hstep effect List.mem_cons_self]
      exact ih fun other hother => hstep other (List.mem_cons_of_mem _ hother)

/-- A new group for a vault that is in one leaves the vault in two groups. -/
theorem not_isHoused_of_exclusive (hids : ((listed.map normalizeVaultGroup).map (·.id)).Nodup)
    {created : CreatedGroup} (honeGroup : OneGroupEach (done ++ .create created :: rest))
    (hexclusive : ExclusiveMembers
      (mergePendingCreatingGroups listed (done ++ .create created :: rest)))
    (hnew : created.group.id ∉ idsAfter listed done) :
    ¬ IsHoused listed done created.vaultId.text := by
  rw [← exists_lists_merge hids]
  rintro ⟨groupId, hlists⟩
  rw [← mem_map_id_merge] at hnew
  have hwhere (id : String) : Lists
      (mergePendingCreatingGroups listed (done ++ .create created :: rest)) id
        created.vaultId.text ↔
      Lists (mergePendingCreatingGroups listed done) id created.vaultId.text ∨
        id = created.group.id := by
    rw [lists_after_create hids honeGroup, mergePendingCreatingGroups_concat,
      lists_mergeEffect_new hnew]
  have hsame : groupId = created.group.id :=
    hexclusive _ _ _ ((hwhere _).mpr (.inl hlists)) ((hwhere _).mpr (.inr rfl))
  obtain ⟨group, hgroup, hid, _⟩ := hlists
  exact hnew (hsame ▸ hid ▸ List.mem_map_of_mem hgroup)

/-- In the second round every group of the first is there, and takes its vault in. -/
theorem isHoused_of_again (hids : ((listed.map normalizeVaultGroup).map (·.id)).Nodup)
    (hagain : mergePendingCreatingGroups (mergePendingCreatingGroups listed pending) pending =
      mergePendingCreatingGroups listed pending) {vaultId : VaultId}
    (hjoin : .existing groupId vaultId ∈ pending) (hthere : groupId ∈ idsAfter listed pending) :
    IsHoused listed pending vaultId.text := by
  have hids' : (((mergePendingCreatingGroups listed pending).map normalizeVaultGroup).map
      (·.id)).Nodup := by
    rw [map_normalize_merge]
    exact nodup_merge hids
  have hhoused : IsHoused (mergePendingCreatingGroups listed pending) pending vaultId.text := by
    obtain ⟨before, after, hsplit⟩ := List.append_of_mem hjoin
    refine .inr ⟨before, _, after, hsplit, rfl, List.mem_append_left _ ?_⟩
    rwa [map_normalize_merge, mem_map_id_merge]
  rw [← exists_lists_merge hids', hagain] at hhoused
  exact (exists_lists_merge hids).mp hhoused

end

theorem exclusiveMembers_singleton (group : VaultGroup) : ExclusiveMembers [group] := by
  rintro _ _ _ ⟨_, hfirst, rfl, _⟩ ⟨_, hsecond, rfl, _⟩
  rw [List.mem_singleton.mp hfirst, List.mem_singleton.mp hsecond]

/-- A group is made for `travel`, and then `travel` is to join it. -/
def tripsPending : List PendingCreateGroupEffect :=
  [.create (newGroup "trips" "Trips" travelId workListed), .existing "trips" travelId]

theorem mergeable_tripsPending : Mergeable workListed tripsPending where
  oneGroup created created' hcreated hcreated' _ := by
    simp only [tripsPending, List.mem_cons, PendingCreateGroupEffect.create.injEq, reduceCtorEq,
      List.not_mem_nil, or_false] at hcreated hcreated'
    rw [hcreated, hcreated']
  fresh done created rest hsplit _ := by
    match done, hsplit with
    | [], hsplit =>
        obtain ⟨hcreate, -⟩ := List.cons.inj hsplit
        obtain rfl := PendingCreateGroupEffect.create.inj hcreate
        rintro (⟨groupId, group, hgroup, -, hmem⟩ | ⟨before, _, _, hnone, -⟩)
        · obtain rfl := List.mem_singleton.mp hgroup
          revert hmem
          decide +kernel
        · simp at hnone
    | [_], hsplit => simp [tripsPending] at hsplit
    | _ :: _ :: _, hsplit => simp [tripsPending] at hsplit
  joined groupId vaultId hjoin _ := by
    obtain ⟨-, rfl⟩ : groupId = "trips" ∧ vaultId = travelId := by
      simpa [tripsPending] using hjoin
    exact .inr ⟨[], _, _, rfl, rfl, trivial⟩

end Upriv.Shared.VaultList
