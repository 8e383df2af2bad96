import Upriv.Shared.VaultGroups.HiddenOrder

/-!
# Runs of drops while rows are hidden

An event numbers the rows that are shown, and then the tail.  So it keeps the
sequence of the hidden rows exactly when the tail has that sequence.
-/

namespace Upriv.Shared.VaultList

/-! ## The hidden rows by their keys -/

def hiddenKeys (list : RootList) : List (Bool × String) :=
  (list.vaults.filter isHidden).map (fun v => (false, v.id)) ++
    (list.groups.filter (·.hidden)).map fun g => (true, g.id)

/-- The ids of the hidden vaults, or groups, among the keys. -/
def hiddenOfKind (list : RootList) (kind : Bool) (keys : List (Bool × String)) : List String :=
  (keys.filter fun key => key.1 = kind && key ∈ hiddenKeys list).map Prod.snd

section
variable {R : JsRuntime} {list : RootList}

theorem mem_hiddenKeys_vault {id : String} :
    (false, id) ∈ hiddenKeys list ↔ ∃ v ∈ list.vaults, v.id = id ∧ isHidden v = true := by
  simp [hiddenKeys, and_comm, and_left_comm]

theorem mem_hiddenKeys_group {id : String} :
    (true, id) ∈ hiddenKeys list ↔ ∃ g ∈ list.groups, g.id = id ∧ g.hidden = true := by
  simp [hiddenKeys, and_assoc, and_comm, and_left_comm]

theorem hiddenKeys_persist (next : List VaultListRootRow) :
    hiddenKeys (list.persist next) = hiddenKeys list := by
  have hvault : isHidden ∘ persistVault next = isHidden := by
    funext v
    obtain ⟨_, h⟩ := (renumbers_persist next).vault v
    rw [Function.comp_apply, h]
    rfl
  have hgroup : (·.hidden) ∘ persistGroup next = (·.hidden) := by
    funext g
    obtain ⟨_, h⟩ := (renumbers_persist next).group g
    rw [Function.comp_apply, h]
  simp only [hiddenKeys, RootList.persist, List.filter_map, hvault, hgroup, List.map_map]
  congr 1
  · exact List.map_congr_left fun v _ => by rw [Function.comp_apply, persistVault_id]
  · exact List.map_congr_left fun g _ => by rw [Function.comp_apply, persistGroup_id]

theorem hiddenKeys_withoutMember (vaultId : String) :
    hiddenKeys (list.withoutMember vaultId) = hiddenKeys list := by
  have hgroup : (·.hidden) ∘ VaultGroup.without vaultId = (·.hidden) := rfl
  simp only [hiddenKeys, RootList.withoutMember, removeVaultFromGroups_eq, List.filter_map, hgroup,
    List.map_map]
  rfl

theorem hiddenOfKind_append (kind : Bool) (keys keys' : List (Bool × String)) :
    hiddenOfKind list kind (keys ++ keys') =
      hiddenOfKind list kind keys ++ hiddenOfKind list kind keys' := by
  rw [hiddenOfKind, List.filter_append, List.map_append]
  rfl

theorem hiddenOfKind_cons (kind : Bool) (key : Bool × String) (keys : List (Bool × String)) :
    hiddenOfKind list kind (key :: keys) =
      if key.1 = kind ∧ key ∈ hiddenKeys list then key.2 :: hiddenOfKind list kind keys
      else hiddenOfKind list kind keys := by
  rw [hiddenOfKind, List.filter_cons]
  by_cases hkey : key.1 = kind ∧ key ∈ hiddenKeys list
  · rw [if_pos hkey, if_pos (by simpa using hkey), List.map_cons]
    rfl
  · rw [if_neg hkey, if_neg (by simpa using hkey)]
    rfl

theorem vault_of_displayRows {direction : VaultListSortDirection} {showHidden : Bool}
    {v : VaultListItem} (h : .vault v ∈ list.displayRows R direction showHidden) :
    v ∈ list.vaults := by
  have hparts := applyVaultListHierarchySort_partitions R list.groups ⟨.order, direction⟩
    (some ⟨some showHidden⟩) list.vaultIds
  exact ((hparts.mem v).mp (List.mem_flatMap.mpr ⟨_, h, List.mem_cons_self⟩)).1

theorem group_of_displayRows {direction : VaultListSortDirection} {showHidden : Bool}
    {g : VaultGroup} {members : List VaultListItem} {hiddenVaultCount : ℕ}
    (h : .group g members hiddenVaultCount ∈ list.displayRows R direction showHidden) :
    g ∈ list.groups := by
  have hparts := applyVaultListHierarchySort_partitions R list.groups ⟨.order, direction⟩
    (some ⟨some showHidden⟩) list.vaultIds
  exact List.mem_of_mem_filter
    (hparts.groupsOnce.mem_iff.mp (List.mem_filterMap.mpr ⟨_, h, rfl⟩))

theorem hiddenOfKind_vaults {rows : List VaultListRootRow}
    (hrows : ∀ v, .vault v ∈ rows → v ∈ list.vaults) :
    hiddenOfKind list false (rows.map rowKey) = (rows.filterMap hiddenVault?).map (·.id) := by
  induction rows with
  | nil => rfl
  | cons row rows ih =>
      have ih := ih fun v hv => hrows v (List.mem_cons_of_mem _ hv)
      rw [List.map_cons, hiddenOfKind_cons, ih]
      cases row with
      | vault v =>
          have hv := hrows v List.mem_cons_self
          have hkey : (false, v.id) ∈ hiddenKeys list ↔ isHidden v = true := by
            rw [mem_hiddenKeys_vault]
            constructor
            · rintro ⟨w, hw, hid, hhidden⟩
              rwa [List.inj_on_of_nodup_map list.vaultIds hw hv hid] at hhidden
            · exact fun hhidden => ⟨v, hv, rfl, hhidden⟩
          by_cases hhidden : isHidden v = true
          · have hrow : hiddenVault? (.vault v) = some v := if_pos hhidden
            rw [if_pos ⟨rfl, hkey.mpr hhidden⟩, List.filterMap_cons_some hrow]
            rfl
          · have hrow : hiddenVault? (.vault v) = none := if_neg hhidden
            rw [if_neg fun h => hhidden (hkey.mp h.2), List.filterMap_cons_none hrow]
      | group _ _ _ =>
          rw [if_neg fun h => Bool.noConfusion h.1, List.filterMap_cons_none rfl]

theorem hiddenOfKind_groups {rows : List VaultListRootRow}
    (hrows : ∀ g members hiddenVaultCount, .group g members hiddenVaultCount ∈ rows →
      g ∈ list.groups) :
    hiddenOfKind list true (rows.map rowKey) = (rows.filterMap hiddenGroup?).map (·.id) := by
  induction rows with
  | nil => rfl
  | cons row rows ih =>
      have ih := ih fun g members hiddenVaultCount hg =>
        hrows g members hiddenVaultCount (List.mem_cons_of_mem _ hg)
      rw [List.map_cons, hiddenOfKind_cons, ih]
      cases row with
      | vault v => rw [if_neg fun h => Bool.noConfusion h.1, List.filterMap_cons_none rfl]
      | group g members hiddenVaultCount =>
          have hg := hrows g _ _ List.mem_cons_self
          have hkey : (true, g.id) ∈ hiddenKeys list ↔ g.hidden = true := by
            rw [mem_hiddenKeys_group]
            constructor
            · rintro ⟨g', hg', hid, hhidden⟩
              rwa [List.inj_on_of_nodup_map list.groupIds hg' hg hid] at hhidden
            · exact fun hhidden => ⟨g, hg, rfl, hhidden⟩
          by_cases hhidden : g.hidden = true
          · have hrow : hiddenGroup? (.group g members hiddenVaultCount) = some g :=
              if_pos hhidden
            rw [if_pos ⟨rfl, hkey.mpr hhidden⟩, List.filterMap_cons_some hrow]
            rfl
          · have hrow : hiddenGroup? (.group g members hiddenVaultCount) = none := if_neg hhidden
            rw [if_neg fun h => hhidden (hkey.mp h.2), List.filterMap_cons_none hrow]

theorem hiddenVaults_eq_hiddenOfKind (direction : VaultListSortDirection) :
    list.hiddenVaults R direction =
      hiddenOfKind list false ((list.displayRows R direction true).map rowKey) :=
  (hiddenOfKind_vaults fun _ hv => vault_of_displayRows hv).symm

theorem hiddenGroups_eq_hiddenOfKind (direction : VaultListSortDirection) :
    list.hiddenGroups R direction =
      hiddenOfKind list true ((list.displayRows R direction true).map rowKey) :=
  (hiddenOfKind_groups fun _ _ _ hg => group_of_displayRows hg).symm

/-- The rows omit what is hidden. -/
theorem hiddenOfKind_displayRows (kind : Bool) (direction : VaultListSortDirection) :
    hiddenOfKind list kind ((list.displayRows R direction false).map rowKey) = [] := by
  rw [hiddenOfKind, List.map_eq_nil_iff, List.filter_eq_nil_iff]
  rintro ⟨kind', id⟩ hkey hhidden
  obtain ⟨-, hhidden⟩ := Bool.and_eq_true_iff.mp hhidden
  rw [decide_eq_true_eq] at hhidden
  cases kind' with
  | false =>
      obtain ⟨v, hv, hid, _, hvisible⟩ := mem_displayRows_vault.mp hkey
      obtain ⟨w, hw, hid', hhidden⟩ := mem_hiddenKeys_vault.mp hhidden
      rw [List.inj_on_of_nodup_map list.vaultIds hv hw (hid.trans hid'.symm), hhidden] at hvisible
      simp at hvisible
  | true =>
      obtain ⟨g, hg, hid, hvisible⟩ := mem_displayRows_group.mp hkey
      obtain ⟨g', hg', hid', hhidden⟩ := mem_hiddenKeys_group.mp hhidden
      rw [List.inj_on_of_nodup_map list.groupIds hg hg' (hid.trans hid'.symm), hhidden] at hvisible
      simp at hvisible

section
variable {hiddenUngrouped : List VaultListItem} {hiddenGroups : List VaultGroup}

theorem hiddenOfKind_tailRows_vaults
    (hhidden : ∀ v ∈ hiddenUngrouped, v ∈ list.vaults ∧ isHidden v = true) :
    hiddenOfKind list false ((tailRows hiddenUngrouped hiddenGroups).map rowKey) =
      hiddenUngrouped.map (·.id) := by
  have hrows : ∀ v, VaultListRootRow.vault v ∈ tailRows hiddenUngrouped hiddenGroups →
      v ∈ list.vaults := by
    intro v hv
    refine (hhidden v ?_).1
    simpa [tailRows] using hv
  rw [hiddenOfKind_vaults hrows, tailRows, List.filterMap_append, List.filterMap_map,
    List.filterMap_map]
  have hnone : hiddenGroups.filterMap (hiddenVault? ∘ fun group =>
      VaultListRootRow.group group [] 0) = [] :=
    List.filterMap_eq_nil_iff.mpr fun _ _ => rfl
  have hall : hiddenUngrouped.filterMap (hiddenVault? ∘ VaultListRootRow.vault) =
      hiddenUngrouped := by
    refine (List.filterMap_congr fun v hv => ?_).trans List.filterMap_some
    exact if_pos (hhidden v hv).2
  rw [hnone, hall, List.append_nil]

theorem hiddenOfKind_tailRows_groups
    (hhidden : ∀ g ∈ hiddenGroups, g ∈ list.groups ∧ g.hidden = true) :
    hiddenOfKind list true ((tailRows hiddenUngrouped hiddenGroups).map rowKey) =
      hiddenGroups.map (·.id) := by
  have hrows : ∀ g members hiddenVaultCount,
      VaultListRootRow.group g members hiddenVaultCount ∈ tailRows hiddenUngrouped hiddenGroups →
        g ∈ list.groups := by
    intro g members hiddenVaultCount hg
    obtain ⟨g', hg', hsame⟩ : ∃ g' ∈ hiddenGroups,
        VaultListRootRow.group g' [] 0 = .group g members hiddenVaultCount := by
      simpa [tailRows] using hg
    injection hsame with hsame
    exact hsame ▸ (hhidden g' hg').1
  rw [hiddenOfKind_groups hrows, tailRows, List.filterMap_append, List.filterMap_map,
    List.filterMap_map]
  have hnone : hiddenUngrouped.filterMap (hiddenGroup? ∘ VaultListRootRow.vault) = [] :=
    List.filterMap_eq_nil_iff.mpr fun _ _ => rfl
  have hall : hiddenGroups.filterMap (hiddenGroup? ∘ fun group =>
      VaultListRootRow.group group [] 0) = hiddenGroups := by
    refine (List.filterMap_congr fun g hg => ?_).trans List.filterMap_some
    exact if_pos (hhidden g hg).2
  rw [hnone, hall, List.nil_append]

end

end

/-! ## The list under new numbers -/

/-- The rows of the vaults and groups that the list omits. -/
def omittedRows (R : JsRuntime) (list : RootList) (direction : VaultListSortDirection) :
    List VaultListRootRow :=
  tailRows (list.hiddenTail R direction) (list.hiddenTailGroups R direction)

section
variable {R : JsRuntime} {list base : RootList} {direction : VaultListSortDirection}
  {visible : List VaultListRootRow}

theorem filter_append_not_perm {α : Type} (p q : α → Bool) (l : List α) :
    (l.filter (fun a => p a && !q a) ++ l.filter fun a => q a && p a).Perm (l.filter p) := by
  have hsplit := List.filter_append_perm q (l.filter p)
  rw [List.filter_filter, List.filter_filter] at hsplit
  refine List.perm_append_comm.trans (List.Perm.trans (.of_eq ?_) hsplit)
  congr 1
  exact List.filter_congr fun a _ => Bool.and_comm _ _

theorem perm_append_append {α : Type} (as bs cs ds : List α) :
    (as ++ bs ++ (cs ++ ds)).Perm (as ++ cs ++ (bs ++ ds)) := by
  have hmiddle : (bs ++ (cs ++ ds)).Perm (cs ++ (bs ++ ds)) := by
    rw [← List.append_assoc, ← List.append_assoc]
    exact List.perm_append_comm.append_right ds
  rw [List.append_assoc, List.append_assoc]
  exact hmiddle.append_left as

/-- All root rows are those that are shown and those that are omitted. -/
theorem map_rowKey_omittedRows :
    ((list.displayRows R direction false ++ omittedRows R list direction).map rowKey).Perm
      ((list.vaults.filter (isUngrouped list.groups)).map (fun v => (false, v.id)) ++
        list.groups.map fun g => (true, g.id)) := by
  have homitted : ((omittedRows R list direction).map rowKey).Perm
      ((hiddenRoots list).map (fun v => (false, v.id)) ++
        (list.groups.filter (·.hidden)).map fun g => (true, g.id)) := by
    rw [omittedRows, hiddenTail_eq, hiddenTailGroups_eq, tailRows, List.map_append, List.map_map,
      List.map_map]
    exact ((sortBy_perm _ _).map _).append ((sortBy_perm _ _).map _)
  have hvaults := filter_append_not_perm (isUngrouped list.groups) isHidden list.vaults
  have hgroups := filter_append_not_perm (fun _ => true) (·.hidden) list.groups
  simp only [Bool.true_and, Bool.and_true, List.filter_true] at hgroups
  rw [List.map_append]
  refine ((map_rowKey_displayRows list direction false).append homitted).trans ?_
  refine (perm_append_append _ _ _ _).trans ?_
  rw [← List.map_append, ← List.map_append]
  exact (hvaults.map _).append (hgroups.map _)

/-- What is hidden after all rows have been numbered again: what is hidden among the
first rows, then the tail. -/
theorem hidden_withHiddenTail (hhidden : hiddenKeys base = hiddenKeys list)
    (hkeys : ((base.displayRows R direction true).map rowKey).Perm
      ((visible ++ omittedRows R list direction).map rowKey)) :
    let next := base.persist (withHiddenTail visible (list.hiddenTail R direction) direction
      (list.hiddenTailGroups R direction))
    next.hiddenVaults R direction = hiddenOfKind list false (visible.map rowKey) ++
        (list.hiddenTail R direction).map (·.id) ∧
      next.hiddenGroups R direction = hiddenOfKind list true (visible.map rowKey) ++
        (list.hiddenTailGroups R direction).map (·.id) := by
  intro next
  have hnext : (next.displayRows R direction true).map rowKey =
      (visible ++ omittedRows R list direction).map rowKey := by
    have hall : withHiddenTail visible (list.hiddenTail R direction) direction
        (list.hiddenTailGroups R direction) =
          withHiddenTail (visible ++ omittedRows R list direction) [] direction [] := by
      rw [withHiddenTail_eq, withHiddenTail_eq]
      exact congrArg (withRootOrders · direction) (List.append_nil _).symm
    have hnodup := hkeys.nodup_iff.mp (nodup_displayRows base direction true)
    have hshown := @map_rowKey_withHiddenTail R base.vaults base.groups _ direction _ _ [] []
      hnodup hkeys
    rw [← hall] at hshown
    exact hshown
  have hvaults : ∀ v ∈ list.hiddenTail R direction, v ∈ list.vaults ∧ isHidden v = true := by
    intro v hv
    rw [hiddenTail_eq, (sortBy_perm _ _).mem_iff, hiddenRoots, List.mem_filter,
      Bool.and_eq_true] at hv
    exact ⟨hv.1, hv.2.1⟩
  have hgroups : ∀ g ∈ list.hiddenTailGroups R direction,
      g ∈ list.groups ∧ g.hidden = true := by
    intro g hg
    rwa [hiddenTailGroups_eq, (sortBy_perm _ _).mem_iff, List.mem_filter] at hg
  have hsame : hiddenKeys next = hiddenKeys list := (hiddenKeys_persist _).trans hhidden
  have hkind : ∀ kind keys, hiddenOfKind next kind keys = hiddenOfKind list kind keys := by
    intro kind keys
    rw [hiddenOfKind, hiddenOfKind, hsame]
  rw [hiddenVaults_eq_hiddenOfKind, hiddenGroups_eq_hiddenOfKind, hkind, hkind, hnext,
    List.map_append, hiddenOfKind_append, hiddenOfKind_append]
  exact ⟨congrArg _ (hiddenOfKind_tailRows_vaults hvaults),
    congrArg _ (hiddenOfKind_tailRows_groups hgroups)⟩

end

/-! ## One event -/

/-- The event numbers the rows again. -/
def RootEvent.Moves (R : JsRuntime) (list : RootList) : RootEvent → Prop
  | .reorder draggedKey targetKey direction =>
      draggedKey ≠ targetKey ∧
        draggedKey ∈ (list.displayRows R direction false).map rootRowId ∧
        targetKey ∈ (list.displayRows R direction false).map rootRowId
  | .ungroup vaultId _ _ => ∃ v ∈ list.vaults, v.id = vaultId ∧ isUngrouped list.groups v = false

/-- The hidden rows of a list keep their sequence in the next one. -/
structure KeepsHidden (R : JsRuntime) (direction : VaultListSortDirection)
    (list list' : RootList) : Prop where
  vaults : (list.hiddenVaults R direction).Sublist (list'.hiddenVaults R direction)
  groups : list'.hiddenGroups R direction = list.hiddenGroups R direction

section
variable {R : JsRuntime} {list : RootList} {direction : VaultListSortDirection}

theorem keepsHidden_refl : KeepsHidden R direction list list := ⟨.refl _, rfl⟩

theorem sublist_append_iff_eq {α : Type} {old extra tail : List α} (hperm : old.Perm tail)
    (hextra : ∀ a ∈ extra, a ∉ old) : old.Sublist (extra ++ tail) ↔ old = tail := by
  constructor
  · intro hsublist
    obtain ⟨front, back, rfl, hfront, hback⟩ := List.sublist_append_iff.mp hsublist
    have hnil : front = [] := by
      refine List.eq_nil_iff_forall_not_mem.mpr fun a ha => ?_
      exact hextra a (hfront.subset ha) (List.mem_append_left back ha)
    rw [hnil, List.nil_append] at hperm ⊢
    exact hback.eq_of_length hperm.length_eq
  · rintro rfl
    exact List.sublist_append_right _ _

theorem keepsHidden_iff (hR : R.Consistent) {next : RootList} {extra : List String}
    (hvaults : next.hiddenVaults R direction =
      extra ++ (list.hiddenTail R direction).map (·.id))
    (hgroups : next.hiddenGroups R direction =
      (list.hiddenTailGroups R direction).map (·.id))
    (hextra : ∀ id ∈ extra, id ∉ (hiddenRoots list).map (·.id)) :
    KeepsHidden R direction list next ↔ TailKeepsPlace R list direction := by
  have hshown : (list.hiddenVaults R direction).Perm ((hiddenRoots list).map (·.id)) := by
    rw [hiddenVaults_eq hR]
    exact ((inDirection_perm _ _).trans (sortBy_perm _ _)).map _
  have hperm : (list.hiddenVaults R direction).Perm
      ((list.hiddenTail R direction).map (·.id)) := by
    rw [hiddenTail_eq]
    exact hshown.trans ((sortBy_perm _ _).map _).symm
  have hnew : ∀ id ∈ extra, id ∉ list.hiddenVaults R direction :=
    fun id hid hold => hextra id hid (hshown.mem_iff.mp hold)
  rw [tailKeepsPlace_iff hR]
  constructor
  · rintro ⟨hsublist, hsame⟩
    rw [hvaults, sublist_append_iff_eq hperm hnew] at hsublist
    exact ⟨hsublist, hsame.symm.trans hgroups⟩
  · rintro ⟨hsame, hsame'⟩
    refine ⟨?_, hgroups.trans hsame'.symm⟩
    rw [hvaults, sublist_append_iff_eq hperm hnew]
    exact hsame

/-- Numbers that are taken over from the rows that are shown are the old ones. -/
theorem persist_displayRows (showHidden : Bool) :
    list.persist (list.displayRows R direction showHidden) = list := by
  have hvaults : list.vaults.map (persistVault (list.displayRows R direction showHidden)) =
      list.vaults := by
    refine (List.map_congr_left fun v hv => ?_).trans (List.map_id _)
    cases hfind : (list.displayRows R direction showHidden).find? (rowKey · = (false, v.id)) with
    | none => exact persistVault_eq_self hfind
    | some row =>
        have hkey := List.find?_some hfind
        rw [decide_eq_true_eq] at hkey
        cases row with
        | group _ _ _ => cases hkey
        | vault w =>
            have hw := vault_of_displayRows (List.mem_of_find?_eq_some hfind)
            have hid : w.id = v.id := congrArg Prod.snd hkey
            rw [persistVault_eq hfind, List.inj_on_of_nodup_map list.vaultIds hw hv hid]
            rfl
  have hgroups : list.groups.map (persistGroup (list.displayRows R direction showHidden)) =
      list.groups := by
    refine (List.map_congr_left fun g hg => ?_).trans (List.map_id _)
    cases hfind : (list.displayRows R direction showHidden).find? (rowKey · = (true, g.id)) with
    | none => exact persistGroup_eq_self hfind
    | some row =>
        have hkey := List.find?_some hfind
        rw [decide_eq_true_eq] at hkey
        cases row with
        | vault _ => cases hkey
        | group g' _ _ =>
            have hg' := group_of_displayRows (List.mem_of_find?_eq_some hfind)
            have hid : g'.id = g.id := congrArg Prod.snd hkey
            rw [persistGroup_eq hfind, List.inj_on_of_nodup_map list.groupIds hg' hg hid]
            rfl
  simp only [RootList.persist, hvaults, hgroups]

theorem hiddenOfKind_perm (list : RootList) (kind : Bool) {keys keys' : List (Bool × String)}
    (hperm : keys.Perm keys') :
    (hiddenOfKind list kind keys).Perm (hiddenOfKind list kind keys') :=
  (hperm.filter _).map _

/-- The rows of all ungrouped vaults and of all groups. -/
theorem map_rowKey_displayRows_all :
    ((list.displayRows R direction true).map rowKey).Perm
      ((list.vaults.filter (isUngrouped list.groups)).map (fun v => (false, v.id)) ++
        list.groups.map fun g => (true, g.id)) := by
  simpa using @map_rowKey_displayRows R list direction true

theorem reorderRootRows_eq_self {rows : List VaultListRootRow} {draggedKey targetKey : String}
    {hiddenUngrouped : List VaultListItem} {hiddenGroups : List VaultGroup}
    (h : ¬ (draggedKey ≠ targetKey ∧ draggedKey ∈ rows.map rootRowId ∧
      targetKey ∈ rows.map rootRowId)) :
    reorderRootRows rows draggedKey targetKey direction hiddenUngrouped hiddenGroups = rows := by
  rw [reorderRootRows]
  split
  · rfl
  · rename_i hne
    split
    · rename_i fromIndex toIndex hfrom hto
      refine absurd ⟨hne, ?_, ?_⟩ h
      · exact mem_of_findIdx?_key hfrom
      · exact mem_of_findIdx?_key hto
    · rfl

theorem perform_reorder_keepsHidden_iff (hR : R.Consistent) {draggedKey targetKey : String} :
    KeepsHidden R direction list (list.perform R (.reorder draggedKey targetKey direction)) ↔
      ((RootEvent.reorder draggedKey targetKey direction).Moves R list →
        TailKeepsPlace R list direction) := by
  rw [RootList.perform]
  by_cases hmoves : (RootEvent.reorder draggedKey targetKey direction).Moves R list
  · obtain ⟨hne, hdragged, htarget⟩ := id hmoves
    obtain ⟨fromIndex, hfrom, -⟩ := exists_findIdx?_key hdragged
    obtain ⟨toIndex, hto, -⟩ := exists_findIdx?_key htarget
    have hswap := (swapItems_perm (list.displayRows R direction false) fromIndex toIndex).map
      rowKey
    have hkeys : ((list.displayRows R direction true).map rowKey).Perm
        ((swapItems (list.displayRows R direction false) fromIndex toIndex ++
          omittedRows R list direction).map rowKey) := by
      have hall := @map_rowKey_omittedRows R list direction
      rw [List.map_append] at hall ⊢
      exact map_rowKey_displayRows_all.trans (hall.symm.trans (hswap.symm.append_right _))
    have hnone : ∀ kind, hiddenOfKind list kind
        ((swapItems (list.displayRows R direction false) fromIndex toIndex).map rowKey) = [] := by
      intro kind
      have hperm := hiddenOfKind_perm list kind hswap
      rw [hiddenOfKind_displayRows] at hperm
      exact hperm.eq_nil
    obtain ⟨hvaults, hgroups⟩ := hidden_withHiddenTail rfl hkeys
    rw [hnone, List.nil_append] at hgroups
    rw [reorderRootRows, if_neg hne, hfrom, hto, keepsHidden_iff hR hvaults hgroups]
    · exact ⟨fun h _ => h, fun h => h hmoves⟩
    · rw [hnone]
      exact List.forall_mem_nil _
  · rw [reorderRootRows_eq_self hmoves, persist_displayRows]
    exact iff_of_true keepsHidden_refl fun h => absurd h hmoves

theorem groups_withoutMember (vaultId : String) :
    (list.withoutMember vaultId).groups = list.groups.map (VaultGroup.without vaultId) :=
  removeVaultFromGroups_eq

theorem isUngrouped_eq_false {groups : List VaultGroup} {v : VaultListItem} :
    isUngrouped groups v = false ↔ groups.any (v.id ∈ ·.groupedVaults) = true := by
  simp [isUngrouped]

/-- Only the vault that leaves is ungrouped then. -/
theorem isUngrouped_removeVaultFromGroups {groups : List VaultGroup} {vaultId : String}
    {v : VaultListItem} :
    isUngrouped (removeVaultFromGroups groups vaultId) v = true ↔
      isUngrouped groups v = true ∨ v.id = vaultId := by
  rw [removeVaultFromGroups_eq]
  by_cases hid : v.id = vaultId
  · simp [isUngrouped, VaultGroup.without, hid]
  · simp [isUngrouped, VaultGroup.without, hid]

theorem filter_isUngrouped_withoutMember {v : VaultListItem} (hv : v ∈ list.vaults)
    (hgrouped : isUngrouped list.groups v = false) :
    (list.vaults.filter (isUngrouped (list.withoutMember v.id).groups)).Perm
      (v :: list.vaults.filter (isUngrouped list.groups)) := by
  have hnodup : list.vaults.Nodup := list.vaultIds.of_map _
  have hnew : v ∉ list.vaults.filter (isUngrouped list.groups) := by
    intro hmem
    rw [List.mem_filter, hgrouped] at hmem
    exact absurd hmem.2 Bool.false_ne_true
  rw [List.perm_ext_iff_of_nodup (hnodup.filter _) (List.nodup_cons.mpr ⟨hnew, hnodup.filter _⟩)]
  intro w
  rw [List.mem_filter, List.mem_cons, List.mem_filter]
  have hungrouped : isUngrouped (list.withoutMember v.id).groups w = true ↔
      isUngrouped list.groups w = true ∨ w.id = v.id := isUngrouped_removeVaultFromGroups
  rw [hungrouped]
  constructor
  · rintro ⟨hw, hroot | hid⟩
    · exact .inr ⟨hw, hroot⟩
    · exact .inl (List.inj_on_of_nodup_map list.vaultIds hw hv hid)
  · rintro (rfl | ⟨hw, hroot⟩)
    · exact ⟨hv, .inr rfl⟩
    · exact ⟨hw, .inl hroot⟩

/-- A vault that is not in the list leaves nothing behind. -/
theorem withoutMember_keepsHidden (hR : R.Consistent) {vaultId : String}
    (hnone : ∀ v ∈ list.vaults, v.id ≠ vaultId) :
    KeepsHidden R direction list (list.withoutMember vaultId) := by
  have hroots : hiddenRoots (list.withoutMember vaultId) = hiddenRoots list := by
    refine List.filter_congr fun v hv => ?_
    congr 1
    rw [Bool.eq_iff_iff]
    exact isUngrouped_removeVaultFromGroups.trans (or_iff_left (hnone v hv))
  refine ⟨?_, ?_⟩
  · rw [hiddenVaults_eq hR, hiddenVaults_eq hR, hroots]
  · have hgroups : (list.withoutMember vaultId).groups.filter (·.hidden) =
        (list.groups.filter (·.hidden)).map (VaultGroup.without vaultId) := by
      rw [groups_withoutMember, List.filter_map]
      rfl
    rw [hiddenGroups_eq hR, hiddenGroups_eq hR, hgroups,
      sortBy_map (VaultGroup.without vaultId) fun _ _ => rfl, inDirection_map, List.map_map]
    rfl

/-- The vault is one more row that is shown. -/
theorem exists_insertUngroupedVaultAtRoot (rows : List VaultListRootRow) (v : VaultListItem)
    (before : Option String) (direction : VaultListSortDirection)
    (hiddenUngrouped : List VaultListItem) (hiddenGroups : List VaultGroup) :
    ∃ visible, insertUngroupedVaultAtRoot rows v before direction hiddenUngrouped hiddenGroups =
        withHiddenTail visible hiddenUngrouped direction hiddenGroups ∧
      (visible.map rowKey).Perm ((false, v.id) :: rows.map rowKey) := by
  refine ⟨_, rfl, (List.perm_middle.map rowKey).trans ?_⟩
  rw [List.take_append_drop]
  exact .refl _

theorem perform_ungroup_keepsHidden_iff (hR : R.Consistent) {vaultId : String}
    {before : Option String} :
    KeepsHidden R direction list (list.perform R (.ungroup vaultId before direction)) ↔
      ((RootEvent.ungroup vaultId before direction).Moves R list →
        TailKeepsPlace R list direction) := by
  rw [RootList.perform]
  by_cases hgrouped : list.groups.any (vaultId ∈ ·.groupedVaults) = true
  · rw [if_pos hgrouped]
    cases hfind : list.vaults.find? (·.id = vaultId) with
    | none =>
        have hnone : ∀ v ∈ list.vaults, v.id ≠ vaultId := by
          simpa using hfind
        refine iff_of_true (withoutMember_keepsHidden hR hnone) ?_
        rintro ⟨v, hv, hid, _⟩
        exact absurd hid (hnone v hv)
    | some v =>
        have hv := List.mem_of_find?_eq_some hfind
        obtain rfl : v.id = vaultId := by simpa using List.find?_some hfind
        have hmoves : (RootEvent.ungroup v.id before direction).Moves R list :=
          ⟨v, hv, rfl, isUngrouped_eq_false.mpr hgrouped⟩
        have hroots := filter_isUngrouped_withoutMember hv (isUngrouped_eq_false.mpr hgrouped)
        obtain ⟨visible, hnext, hvisible⟩ := exists_insertUngroupedVaultAtRoot
          (list.displayRows R direction false) v before direction (list.hiddenTail R direction)
          (list.hiddenTailGroups R direction)
        have hkeys : (((list.withoutMember v.id).displayRows R direction true).map rowKey).Perm
            ((visible ++ omittedRows R list direction).map rowKey) := by
          have hall := @map_rowKey_omittedRows R list direction
          have hgroupKeys : ((list.withoutMember v.id).groups.map fun g => (true, g.id)) =
              list.groups.map fun g => (true, g.id) := by
            rw [groups_withoutMember, List.map_map]
            rfl
          refine map_rowKey_displayRows_all.trans ?_
          rw [hgroupKeys]
          refine ((hroots.map fun w => (false, w.id)).append_right _).trans ?_
          rw [List.map_append] at hall ⊢
          exact (hall.symm.cons _).trans (hvisible.symm.append_right _)
        obtain ⟨hvaults, hgroups⟩ :=
          hidden_withHiddenTail (hiddenKeys_withoutMember v.id) hkeys
        have hextra : ∀ kind, (hiddenOfKind list kind (visible.map rowKey)).Perm
            (if false = kind ∧ (false, v.id) ∈ hiddenKeys list then [v.id] else []) := by
          intro kind
          have hperm := hiddenOfKind_perm list kind hvisible
          rwa [hiddenOfKind_cons, hiddenOfKind_displayRows] at hperm
        have hnone := hextra true
        rw [if_neg fun h => Bool.noConfusion h.1] at hnone
        rw [hnone.eq_nil, List.nil_append] at hgroups
        dsimp only
        rw [hnext, keepsHidden_iff hR hvaults hgroups]
        · exact ⟨fun h _ => h, fun h => h hmoves⟩
        · intro id hid hold
          rw [(hextra false).mem_iff] at hid
          obtain rfl : id = v.id := by
            split at hid
            · exact List.mem_singleton.mp hid
            · exact absurd hid List.not_mem_nil
          obtain ⟨w, hw, hwid⟩ := List.mem_map.mp hold
          rw [hiddenRoots, List.mem_filter, Bool.and_eq_true] at hw
          obtain rfl := List.inj_on_of_nodup_map list.vaultIds hw.1 hv hwid
          exact absurd (hw.2.2.symm.trans (isUngrouped_eq_false.mpr hgrouped)) (by simp)
  · rw [if_neg hgrouped]
    refine iff_of_true keepsHidden_refl ?_
    rintro ⟨v, _, rfl, hungrouped⟩
    exact absurd (isUngrouped_eq_false.mp hungrouped) hgrouped

/-- An event keeps the sequence of the hidden rows exactly when it numbers nothing or the
tail has that sequence. -/
theorem perform_keepsHidden_iff (hR : R.Consistent) (e : RootEvent) :
    KeepsHidden R e.direction list (list.perform R e) ↔
      (e.Moves R list → TailKeepsPlace R list e.direction) := by
  cases e with
  | reorder draggedKey targetKey direction => exact perform_reorder_keepsHidden_iff hR
  | ungroup vaultId before direction => exact perform_ungroup_keepsHidden_iff hR

theorem hiddenVaults_inDirection :
    list.hiddenVaults R direction = inDirection direction (list.hiddenVaults R .asc) := by
  have hrows : list.displayRows R direction true =
      inDirection direction (list.displayRows R .asc true) := rfl
  rw [RootList.hiddenVaults, hrows, filterMap_inDirection, ← inDirection_map]
  rfl

theorem hiddenGroups_inDirection :
    list.hiddenGroups R direction = inDirection direction (list.hiddenGroups R .asc) := by
  have hrows : list.displayRows R direction true =
      inDirection direction (list.displayRows R .asc true) := rfl
  rw [RootList.hiddenGroups, hrows, filterMap_inDirection, ← inDirection_map]
  rfl

/-- The other direction shows the reverse of both lists. -/
theorem keepsHidden_asc_iff {list' : RootList} :
    KeepsHidden R direction list list' ↔ KeepsHidden R .asc list list' := by
  cases direction with
  | asc => exact Iff.rfl
  | desc =>
      constructor
      · rintro ⟨hvaults, hgroups⟩
        rw [hiddenVaults_inDirection, @hiddenVaults_inDirection R list'] at hvaults
        rw [hiddenGroups_inDirection, @hiddenGroups_inDirection R list] at hgroups
        exact ⟨List.reverse_sublist.mp hvaults, List.reverse_injective hgroups⟩
      · rintro ⟨hvaults, hgroups⟩
        refine ⟨?_, ?_⟩
        · rw [hiddenVaults_inDirection, @hiddenVaults_inDirection R list']
          exact List.reverse_sublist.mpr hvaults
        · rw [hiddenGroups_inDirection, @hiddenGroups_inDirection R list]
          exact congrArg List.reverse hgroups

/-- Over any number of events, in lists of any direction, hidden rows keep their
sequence as long as each event that numbers the rows finds a tail that has it. -/
theorem run_keepsHidden (hR : R.Consistent) {list' : RootList} {events : List RootEvent}
    (hrun : Run (fun list e => some (list.perform R e))
      (fun list e _ => e.Moves R list → TailKeepsPlace R list e.direction) list events list') :
    KeepsHidden R direction list list' := by
  rw [keepsHidden_asc_iff]
  refine hrun.invariant (KeepsHidden R .asc list) keepsHidden_refl ?_
  intro mid e next hkept hstep hcondition
  obtain rfl := Option.some.inj hstep
  obtain ⟨hvaults, hgroups⟩ :=
    keepsHidden_asc_iff.mp ((perform_keepsHidden_iff hR e).mpr hcondition)
  exact ⟨hkept.vaults.trans hvaults, hgroups.trans hkept.groups⟩

end

/-! ### Two hidden vaults -/

def hiddenSample : RootList where
  vaults :=
    [⟨"notes", "Notes", none, some 1, none, ""⟩, ⟨"taxes", "Taxes", none, some 2, none, ""⟩,
      ⟨"diary", "Diary", none, some 3, some true, ""⟩,
      ⟨"ledger", "Ledger", none, some 4, some true, ""⟩,
      ⟨"recipes", "Recipes", none, none, none, ""⟩]
  groups := [⟨"work", "Work", 5, false, ["recipes"], none, none⟩]
  vaultIds := by decide
  groupIds := by decide

theorem plainRuntime_consistent : plainRuntime.Consistent where
  first := ⟨fun _ _ => Iff.rfl, fun _ _ _ _ _ => le_rfl⟩
  base := ⟨fun _ _ => Iff.rfl, fun _ _ _ _ _ => le_rfl⟩

/-- A drop and a vault that leaves its group, in an ascending list. -/
theorem run_keepsHidden_asc :
    KeepsHidden plainRuntime .asc hiddenSample
      ((hiddenSample.perform plainRuntime (.reorder "vault:notes" "vault:taxes" .asc)).perform
        plainRuntime (.ungroup "recipes" (some "notes") .asc)) :=
  run_keepsHidden plainRuntime_consistent
    (((Run.refl hiddenSample).tail (e := .reorder "vault:notes" "vault:taxes" .asc) rfl
      fun _ => tailKeepsPlace_asc (by decide +kernel)).tail
        (e := .ungroup "recipes" (some "notes") .asc) rfl
        fun _ => tailKeepsPlace_asc (by decide +kernel))

/-- In a descending list one drop turns the hidden vaults round. -/
theorem perform_desc_not_keepsHidden :
    plainRuntime.Consistent ∧ ¬ KeepsHidden plainRuntime .desc hiddenSample
      (hiddenSample.perform plainRuntime (.reorder "vault:notes" "vault:taxes" .desc)) := by
  refine ⟨plainRuntime_consistent, fun h => ?_⟩
  have hbefore : hiddenSample.hiddenVaults plainRuntime .desc = ["ledger", "diary"] := by
    decide +kernel
  have hafter : (hiddenSample.perform plainRuntime
      (.reorder "vault:notes" "vault:taxes" .desc)).hiddenVaults plainRuntime .desc =
        ["diary", "ledger"] := by
    decide +kernel
  have hsublist := h.vaults
  rw [hbefore, hafter] at hsublist
  exact absurd (hsublist.eq_of_length rfl) (by decide)

end Upriv.Shared.VaultList
