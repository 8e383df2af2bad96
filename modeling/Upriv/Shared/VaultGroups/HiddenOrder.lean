import Upriv.Shared.VaultGroups.RootOrder
import Upriv.Support.Runs

/-!
# The sequence of the hidden rows

The list state renumbers all root rows while hidden rows are omitted.  The hidden
ones follow the visible ones then, sorted by their numbers before.  That sort is
ascending whatever the direction of the list is, and the numbers go down in a
descending list.
-/

namespace Upriv.Shared.VaultList

/-! ## The list and its events -/

/-- The vaults and the groups of the list. -/
structure RootList where
  vaults : List VaultListItem
  groups : List VaultGroup
  vaultIds : (vaults.map (·.id)).Nodup
  groupIds : (groups.map (·.id)).Nodup

def hiddenVault? : VaultListRootRow → Option VaultListItem
  | .vault vault => if isHidden vault then some vault else none
  | .group _ _ _ => none

def hiddenGroup? : VaultListRootRow → Option VaultGroup
  | .vault _ => none
  | .group group _ _ => if group.hidden then some group else none

/-- A drop on a root row, and a member that leaves its group. -/
inductive RootEvent
  | reorder (draggedKey targetKey : String) (direction : VaultListSortDirection)
  | ungroup (vaultId : String) (beforeVaultId : Option String)
      (direction : VaultListSortDirection)

/-- The direction in which the list is shown. -/
def RootEvent.direction : RootEvent → VaultListSortDirection
  | .reorder _ _ direction => direction
  | .ungroup _ _ direction => direction

theorem persistVault_id (next : List VaultListRootRow) (vault : VaultListItem) :
    (persistVault next vault).id = vault.id := by
  obtain ⟨_, h⟩ := (renumbers_persist next).vault vault
  rw [h]

theorem persistGroup_id (next : List VaultListRootRow) (group : VaultGroup) :
    (persistGroup next group).id = group.id := by
  obtain ⟨_, h⟩ := (renumbers_persist next).group group
  rw [h]

namespace RootList

section
variable (R : JsRuntime)

/-- The rows of the list, by their order. -/
def displayRows (list : RootList) (direction : VaultListSortDirection) (showHidden : Bool) :
    List VaultListRootRow :=
  applyVaultListHierarchySort R list.vaults list.groups ⟨.order, direction⟩
    (some ⟨some showHidden⟩)

/-- `persistRootOrdersFromRows`. -/
def persist (list : RootList) (nextRows : List VaultListRootRow) : RootList where
  vaults := list.vaults.map (persistVault nextRows)
  groups := list.groups.map (persistGroup nextRows)
  vaultIds := by
    rw [List.map_map]
    exact (List.map_congr_left fun v _ => persistVault_id nextRows v) ▸ list.vaultIds
  groupIds := by
    rw [List.map_map]
    exact (List.map_congr_left fun g _ => persistGroup_id nextRows g) ▸ list.groupIds

def withoutMember (list : RootList) (vaultId : String) : RootList where
  vaults := list.vaults
  groups := removeVaultFromGroups list.groups vaultId
  vaultIds := list.vaultIds
  groupIds := by
    rw [removeVaultFromGroups_eq, List.map_map]
    exact list.groupIds

/-- What is added to the rows while hidden rows are omitted. -/
def hiddenTail (list : RootList) (direction : VaultListSortDirection) : List VaultListItem :=
  hiddenUngroupedRootVaults R list.vaults list.groups (list.displayRows R direction false)

def hiddenTailGroups (list : RootList) (direction : VaultListSortDirection) : List VaultGroup :=
  hiddenOmittedRootGroups R list.groups (list.displayRows R direction false)

/-- The next list, while hidden rows are omitted. -/
def perform (list : RootList) : RootEvent → RootList
  | .reorder draggedKey targetKey direction =>
      list.persist (reorderRootRows (list.displayRows R direction false) draggedKey targetKey
        direction (list.hiddenTail R direction) (list.hiddenTailGroups R direction))
  | .ungroup vaultId beforeVaultId direction =>
      if list.groups.any (vaultId ∈ ·.groupedVaults) then
        match list.vaults.find? (·.id = vaultId) with
        | none => list.withoutMember vaultId
        | some vault =>
            (list.withoutMember vaultId).persist
              (insertUngroupedVaultAtRoot (list.displayRows R direction false) vault beforeVaultId
                direction (list.hiddenTail R direction) (list.hiddenTailGroups R direction))
      else list

/-- The hidden vaults that have a row of their own, as shown with hidden rows. -/
def hiddenVaults (list : RootList) (direction : VaultListSortDirection) : List String :=
  ((list.displayRows R direction true).filterMap hiddenVault?).map (·.id)

/-- The hidden groups, as shown with hidden rows. -/
def hiddenGroups (list : RootList) (direction : VaultListSortDirection) : List String :=
  ((list.displayRows R direction true).filterMap hiddenGroup?).map (·.id)

end

end RootList

/-! ## Comparators -/

/-- `localeCompare` is a consistent comparator. -/
structure JsRuntime.Consistent (R : JsRuntime) : Prop where
  first : ConsistentCompare R.compareFirst
  base : ConsistentCompare R.compareBase

section
variable {R : JsRuntime}

theorem consistent_compareDisplayName (hR : R.Consistent) :
    ConsistentCompare (compareDisplayName R) :=
  hR.first.thenBy hR.base

theorem consistent_compareRootRows (hR : R.Consistent) :
    ConsistentCompare fun a b => compareRootRows R a b .order :=
  (consistentCompare_sub fun row => rootSortKey R row .order).thenBy
    ((consistent_compareDisplayName hR).comap rootName)

theorem consistent_compareOrder (hR : R.Consistent) : ConsistentCompare (compareOrder R) :=
  (consistentCompare_sub fun v : VaultListItem => v.order.getD 999).thenBy
    (hR.base.comap fun v : VaultListItem => v.displayName)

/-- The comparator of the tail, for any kind of row. -/
theorem consistent_compareTail {α : Type} (hR : R.Consistent) (order : α → ℚ)
    (name : α → String) :
    ConsistentCompare fun a b => compareTail R (order a) (name a) (order b) (name b) :=
  (consistentCompare_sub order).thenBy ((consistent_compareDisplayName hR).comap name)

end

section
variable {α β : Type} {compare : α → α → ℚ}

/-- A stable sort keeps the order of a part of the list. -/
theorem sortBy_filterMap (h : ConsistentCompare compare) (compare' : β → β → ℚ) {f : α → Option β}
    (hf : ∀ a b x y, f a = some x → f b = some y → compare' x y = compare a b) (list : List α) :
    (sortBy compare list).filterMap f = sortBy compare' (list.filterMap f) := by
  have _ := h.total
  have _ := h.isTrans
  refine filterMap_insertionSort (fun a b x y ha hb => ?_) list
  rw [hf a b x y ha hb]

theorem sortBy_sortBy {compare' : α → α → ℚ} (h : ConsistentCompare compare)
    (h' : ConsistentCompare compare') (hties : ∀ a b, compare a b = 0 → compare' a b = 0)
    {list : List α} (hnodup : list.Nodup) :
    sortBy compare (sortBy compare' list) = sortBy compare list := by
  have _ := h.total
  have _ := h.isTrans
  have _ := h'.total
  have _ := h'.isTrans
  refine insertionSort_insertionSort _ hnodup fun a b hab hba => ?_
  have hzero : compare a b = 0 := by
    refine le_antisymm hab (not_lt.mp fun hlt => ?_)
    exact ((h.swap a b).mp hlt).not_ge hba
  exact (hties a b hzero).le

end

/-! ## The rows that are shown -/

/-- No group lists the vault. -/
def isUngrouped (groups : List VaultGroup) (vault : VaultListItem) : Bool :=
  vault.id ∉ groups.flatMap (·.groupedVaults)

section
variable {R : JsRuntime} {vaults : List VaultListItem} {groups : List VaultGroup}

theorem isGroupRow_of_forall₂ {showHidden : Bool} {ps : List (VaultGroup × ℕ)}
    {rows : List VaultListRootRow}
    (h : List.Forall₂ (IsRowOf vaults groups showHidden) ps rows) :
    ∀ row ∈ rows, isGroupRow row = true := by
  induction h with
  | nil => exact List.forall_mem_nil _
  | cons hrow _ ih =>
      obtain ⟨_, _, rfl, _⟩ := hrow
      exact List.forall_mem_cons.mpr ⟨rfl, ih⟩

/-- The rows before the sort. -/
theorem exists_displayRows (hids : (vaults.map (·.id)).Nodup)
    (direction : VaultListSortDirection) (showHidden : Bool) :
    ∃ groupRows : List VaultListRootRow,
      applyVaultListHierarchySort R vaults groups ⟨.order, direction⟩ (some ⟨some showHidden⟩) =
        inDirection direction (sortBy (fun a b => compareRootRows R a b .order)
          ((sortVaultsByOrder R (vaults.filter fun v =>
            isUngrouped groups v && (showHidden || !isHidden v))).map .vault ++ groupRows)) ∧
      groupRows.filterMap (·.group?) = (groups.filter fun g => showHidden || !g.hidden) ∧
      ∀ row ∈ groupRows, isGroupRow row = true := by
  have hinv : RowsInv vaults groups showHidden groups
      (groups.foldl (pushGroup R vaults showHidden) ⟨[], []⟩) :=
    rowsInv_foldl hids (rowsInv_nil vaults ([] ++ groups) showHidden)
  have hoptions : showHiddenOf (some ⟨some showHidden⟩) = showHidden := rfl
  rw [applyVaultListHierarchySort, hoptions]
  generalize groups.foldl (pushGroup R vaults showHidden) ⟨[], []⟩ = loop at hinv ⊢
  refine ⟨loop.groupRows, ?_, ?_, ?_⟩
  · have hungrouped : (vaults.filter fun v => v.id ∉ loop.claimed && (showHidden || !isHidden v)) =
        vaults.filter fun v => isUngrouped groups v && (showHidden || !isHidden v) := by
      refine List.filter_congr fun v hv => ?_
      congr 1
      rw [isUngrouped, decide_eq_decide, hinv.claimed, List.mem_flatMap, not_iff_not]
      exact and_iff_left ⟨v, hv, rfl⟩
    rw [hungrouped]
    rfl
  · rw [filterMap_group?_of_forall₂ hinv.rows]
    conv_rhs => rw [← List.zipIdx_map_fst 0 groups, List.filter_map]
    rfl
  · intro row hrow
    exact isGroupRow_of_forall₂ hinv.rows row hrow

/-- The keys of the rows: those of the ungrouped vaults and of the groups. -/
theorem map_rowKey_displayRows (list : RootList) (direction : VaultListSortDirection)
    (showHidden : Bool) :
    ((list.displayRows R direction showHidden).map rowKey).Perm
      ((list.vaults.filter fun v => isUngrouped list.groups v && (showHidden || !isHidden v)).map
          (fun v => (false, v.id)) ++
        (list.groups.filter fun g => showHidden || !g.hidden).map fun g => (true, g.id)) := by
  obtain ⟨groupRows, hrows, hgroups, hkinds⟩ := @exists_displayRows R list.vaults list.groups
    list.vaultIds direction showHidden
  have hgroupKeys : groupRows.map rowKey =
      (groupRows.filterMap (·.group?)).map fun g => (true, g.id) := by
    clear hrows hgroups
    induction groupRows with
    | nil => rfl
    | cons row groupRows ih =>
        obtain ⟨hrow, hrest⟩ := List.forall_mem_cons.mp hkinds
        cases row with
        | vault v => cases hrow
        | group group _ _ => exact congrArg _ (ih hrest)
  rw [RootList.displayRows, hrows]
  refine (((inDirection_perm _ _).trans (sortBy_perm _ _)).map rowKey).trans ?_
  rw [List.map_append, List.map_map, hgroupKeys, hgroups]
  exact ((sortBy_perm _ _).map _).append_right _

theorem mem_displayRows_vault {list : RootList} {direction : VaultListSortDirection}
    {showHidden : Bool} {id : String} :
    (false, id) ∈ (list.displayRows R direction showHidden).map rowKey ↔
      ∃ v ∈ list.vaults, v.id = id ∧ isUngrouped list.groups v = true ∧
        (showHidden = true ∨ isHidden v = false) := by
  rw [(map_rowKey_displayRows list direction showHidden).mem_iff]
  simp [and_comm, and_left_comm]

theorem mem_displayRows_group {list : RootList} {direction : VaultListSortDirection}
    {showHidden : Bool} {id : String} :
    (true, id) ∈ (list.displayRows R direction showHidden).map rowKey ↔
      ∃ g ∈ list.groups, g.id = id ∧ (showHidden = true ∨ g.hidden = false) := by
  rw [(map_rowKey_displayRows list direction showHidden).mem_iff]
  simp [and_assoc, and_comm]

theorem nodup_keys {α : Type} {id : α → String} {kind : Bool} {l l' : List α}
    (hids : (l.map id).Nodup) (hsublist : l'.Sublist l) :
    (l'.map fun a => (kind, id a)).Nodup := by
  have hmap : (l'.map fun a => (kind, id a)) = (l'.map id).map (Prod.mk kind) := by
    rw [List.map_map]
    rfl
  rw [hmap]
  exact (hids.sublist (hsublist.map id)).map (Prod.mk_right_injective kind)

theorem nodup_displayRows (list : RootList) (direction : VaultListSortDirection)
    (showHidden : Bool) : ((list.displayRows R direction showHidden).map rowKey).Nodup := by
  rw [(map_rowKey_displayRows list direction showHidden).nodup_iff, List.nodup_append]
  exact ⟨nodup_keys list.vaultIds List.filter_sublist,
    nodup_keys list.groupIds List.filter_sublist, by simp⟩

/-! ## The hidden rows in their sequence -/

/-- A vault of its own that is omitted. -/
def hiddenRoots (list : RootList) : List VaultListItem :=
  list.vaults.filter fun v => isHidden v && isUngrouped list.groups v

theorem filterMap_inDirection {α β : Type} (direction : VaultListSortDirection) (f : α → Option β)
    (list : List α) :
    (inDirection direction list).filterMap f = inDirection direction (list.filterMap f) := by
  cases direction with
  | asc => rfl
  | desc => exact List.filterMap_reverse

theorem eq_of_hiddenVault? {row : VaultListRootRow} {v : VaultListItem}
    (h : hiddenVault? row = some v) : row = .vault v := by
  cases row with
  | vault w =>
      rw [hiddenVault?] at h
      split at h
      · rw [Option.some.inj h]
      · cases h
  | group _ _ _ => cases h

theorem eq_of_hiddenGroup? {row : VaultListRootRow} {g : VaultGroup}
    (h : hiddenGroup? row = some g) :
    ∃ members hiddenVaultCount, row = .group g members hiddenVaultCount := by
  cases row with
  | vault w => cases h
  | group g' members hiddenVaultCount =>
      rw [hiddenGroup?] at h
      split at h
      · exact ⟨members, hiddenVaultCount, by rw [Option.some.inj h]⟩
      · cases h

/-- Rows that tie in the list tie in the sort before. -/
theorem compareOrder_eq_zero {a b : VaultListItem}
    (h : compareRootRows R (.vault a) (.vault b) .order = 0) : compareOrder R a b = 0 := by
  obtain ⟨hnumber, hname⟩ := thenBy_eq_zero h
  obtain ⟨-, hbase⟩ := thenBy_eq_zero hname
  have hdiff : a.order.getD 999 - b.order.getD 999 = 0 := hnumber
  rw [compareOrder, if_neg (not_not.mpr hdiff)]
  exact hbase

/-- What the rows omit, in the order of the tail. -/
theorem hiddenTail_eq (list : RootList) (direction : VaultListSortDirection) :
    list.hiddenTail R direction =
      sortBy (fun a b =>
        compareTail R (a.order.getD 0) a.displayName (b.order.getD 0) b.displayName)
        (hiddenRoots list) := by
  rw [RootList.hiddenTail, hiddenUngroupedRootVaults, hiddenRoots]
  congr 1
  refine List.filter_congr fun v hv => ?_
  cases hhidden : isHidden v with
  | false => rfl
  | true =>
      have hnone : (list.displayRows R direction false).any (isVaultRow v.id) = false := by
        rw [List.any_eq_false]
        intro row hrow hkey
        rw [isVaultRow_eq, decide_eq_true_eq] at hkey
        obtain ⟨w, hw, hid, _, hvisible⟩ :=
          mem_displayRows_vault.mp (List.mem_map.mpr ⟨row, hrow, hkey⟩)
        rw [List.inj_on_of_nodup_map list.vaultIds hw hv hid, hhidden] at hvisible
        simp at hvisible
      rw [hnone, Bool.not_false, Bool.and_true]
      rfl

theorem hiddenTailGroups_eq (list : RootList) (direction : VaultListSortDirection) :
    list.hiddenTailGroups R direction =
      sortBy (fun a b => compareTail R a.order a.displayName b.order b.displayName)
        (list.groups.filter (·.hidden)) := by
  rw [RootList.hiddenTailGroups, hiddenOmittedRootGroups]
  congr 1
  refine List.filter_congr fun g hg => ?_
  cases hhidden : g.hidden with
  | false => rfl
  | true =>
      have hnone : (list.displayRows R direction false).any (isRowOfGroup g.id) = false := by
        rw [List.any_eq_false]
        intro row hrow hkey
        rw [isRowOfGroup_eq, decide_eq_true_eq] at hkey
        obtain ⟨g', hg', hid, hvisible⟩ :=
          mem_displayRows_group.mp (List.mem_map.mpr ⟨row, hrow, hkey⟩)
        rw [List.inj_on_of_nodup_map list.groupIds hg' hg hid, hhidden] at hvisible
        simp at hvisible
      rw [hnone]
      rfl

/-- The hidden vaults are shown by their order, where none is the number 999. -/
theorem hiddenVaults_eq (hR : R.Consistent) (list : RootList)
    (direction : VaultListSortDirection) :
    list.hiddenVaults R direction = (inDirection direction (sortBy (fun a b =>
      compareRootRows R (.vault a) (.vault b) .order) (hiddenRoots list))).map (·.id) := by
  obtain ⟨groupRows, hrows, -, hkinds⟩ := @exists_displayRows R list.vaults list.groups
    list.vaultIds direction true
  have hnodup : (hiddenRoots list).Nodup := (list.vaultIds.of_map _).filter _
  have hvaults : ∀ vaults : List VaultListItem,
      (vaults.map VaultListRootRow.vault).filterMap hiddenVault? = vaults.filter isHidden := by
    intro vaults
    rw [List.filterMap_map, ← List.filterMap_eq_filter]
    refine List.filterMap_congr fun v _ => ?_
    rw [Function.comp_apply, hiddenVault?, Option.guard]
  have hroots : (sortVaultsByOrder R (list.vaults.filter fun v =>
      isUngrouped list.groups v && (true || !isHidden v))).filter isHidden =
        sortBy (compareOrder R) (hiddenRoots list) := by
    rw [sortVaultsByOrder, ← List.filterMap_eq_filter,
      sortBy_filterMap (consistent_compareOrder hR) (compareOrder R), List.filterMap_eq_filter,
      List.filter_filter, hiddenRoots]
    · simp
    · intro a b x y ha hb
      rw [Option.guard_eq_some_iff] at ha hb
      rw [ha.1, hb.1]
  have hgroupRows : groupRows.filterMap hiddenVault? = [] := by
    rw [List.filterMap_eq_nil_iff]
    intro row hrow
    cases row with
    | vault v => cases hkinds _ hrow
    | group _ _ _ => rfl
  rw [RootList.hiddenVaults, RootList.displayRows, hrows, filterMap_inDirection,
    sortBy_filterMap (consistent_compareRootRows hR) (fun a b =>
      compareRootRows R (.vault a) (.vault b) .order), List.filterMap_append, hvaults, hroots,
    hgroupRows, List.append_nil, sortBy_sortBy _ (consistent_compareOrder hR) _ hnodup]
  · exact (consistent_compareRootRows hR).comap VaultListRootRow.vault
  · exact fun a b => compareOrder_eq_zero
  · intro a b x y ha hb
    rw [eq_of_hiddenVault? ha, eq_of_hiddenVault? hb]

theorem hiddenGroups_eq (hR : R.Consistent) (list : RootList)
    (direction : VaultListSortDirection) :
    list.hiddenGroups R direction = (inDirection direction (sortBy (fun a b =>
      compareTail R a.order a.displayName b.order b.displayName)
        (list.groups.filter (·.hidden)))).map (·.id) := by
  obtain ⟨groupRows, hrows, hgroups, -⟩ := @exists_displayRows R list.vaults list.groups
    list.vaultIds direction true
  have hvaults : ∀ vaults : List VaultListItem,
      (vaults.map VaultListRootRow.vault).filterMap hiddenGroup? = [] := by
    intro vaults
    rw [List.filterMap_map, List.filterMap_eq_nil_iff]
    exact fun v _ => rfl
  have hgroupRows : groupRows.filterMap hiddenGroup? = list.groups.filter (·.hidden) := by
    have hall : groupRows.filterMap (·.group?) = list.groups := by simpa using hgroups
    rw [← hall, ← List.filterMap_eq_filter, List.filterMap_filterMap]
    refine List.filterMap_congr fun row _ => ?_
    cases row with
    | vault v => rfl
    | group g _ _ => simp [hiddenGroup?, VaultListRootRow.group?, Option.guard]
  rw [RootList.hiddenGroups, RootList.displayRows, hrows, filterMap_inDirection,
    sortBy_filterMap (consistent_compareRootRows hR) (fun a b : VaultGroup =>
      compareTail R a.order a.displayName b.order b.displayName), List.filterMap_append, hvaults,
    hgroupRows, List.nil_append]
  intro a b x y ha hb
  obtain ⟨_, _, rfl⟩ := eq_of_hiddenGroup? ha
  obtain ⟨_, _, rfl⟩ := eq_of_hiddenGroup? hb
  rfl

end

/-! ## When the tail has the sequence that is shown -/

/-- `a` is shown before `b`, which the list has after it. -/
def ShownFirst (R : JsRuntime) (direction : VaultListSortDirection) (a b : VaultListItem) : Prop :=
  compareRootRows R (.vault a) (.vault b) .order ≤ 0 ↔ direction = .asc

/-- The tail puts any two hidden vaults in the order in which they are shown.  Hidden
groups have a number each, which the direction turns round. -/
structure TailKeepsPlace (R : JsRuntime) (list : RootList) (direction : VaultListSortDirection) :
    Prop where
  vaults : ∀ a b, [a, b].Sublist (hiddenRoots list) →
    (ShownFirst R direction a b ↔
      compareTail R (a.order.getD 0) a.displayName (b.order.getD 0) b.displayName ≤ 0)
  groups : direction = .asc ∨ (list.groups.filter (·.hidden)).length ≤ 1

section
variable {R : JsRuntime}

theorem sortBy_eq_inDirection_iff {α : Type} {shown tail : α → α → ℚ}
    (hshown : ConsistentCompare shown) (htail : ConsistentCompare tail)
    {direction : VaultListSortDirection} {list : List α} (hnodup : list.Nodup) :
    inDirection direction (sortBy shown list) = sortBy tail list ↔
      ∀ a b, [a, b].Sublist list → ((shown a b ≤ 0 ↔ direction = .asc) ↔ tail a b ≤ 0) := by
  have _ := hshown.total
  have _ := hshown.isTrans
  have _ := htail.total
  have _ := htail.isTrans
  cases direction with
  | asc =>
      simp only [iff_true]
      exact insertionSort_eq_iff _ hnodup
  | desc =>
      simp only [reduceCtorEq, iff_false]
      exact reverse_insertionSort_eq_iff _ hnodup

/-- Both comparators are one where there are numbers. -/
theorem compareRootRows_eq_compareTail {a b : VaultListItem} (ha : a.order.isSome = true)
    (hb : b.order.isSome = true) :
    compareRootRows R (.vault a) (.vault b) .order =
      compareTail R (a.order.getD 0) a.displayName (b.order.getD 0) b.displayName := by
  obtain ⟨orderA, hA⟩ := Option.isSome_iff_exists.mp ha
  obtain ⟨orderB, hB⟩ := Option.isSome_iff_exists.mp hb
  simp only [compareRootRows, compareByKey, compareTail, rootSortKey, rootName, hA, hB,
    Option.getD_some]

/-- An ascending list in which every hidden vault has a number. -/
theorem tailKeepsPlace_asc {list : RootList}
    (horders : ∀ v ∈ hiddenRoots list, v.order.isSome = true) : TailKeepsPlace R list .asc where
  vaults a b hab := by
    have hsame := @compareRootRows_eq_compareTail R a b (horders a (hab.mem (by simp)))
      (horders b (hab.mem (by simp)))
    rw [ShownFirst, hsame]
    exact iff_true_right rfl
  groups := .inl rfl

/-- A descending list shows two hidden vaults with numbers the other way. -/
theorem not_tailKeepsPlace_desc {list : RootList} {a b : VaultListItem}
    (hab : [a, b].Sublist (hiddenRoots list)) (ha : a.order.isSome = true)
    (hb : b.order.isSome = true) : ¬ TailKeepsPlace R list .desc := by
  intro h
  have hplace := h.vaults a b hab
  rw [ShownFirst, compareRootRows_eq_compareTail ha hb] at hplace
  simp only [reduceCtorEq, iff_false] at hplace
  exact not_iff_self hplace

theorem map_inDirection_sortBy_eq_iff {α : Type} {shown tail : α → α → ℚ} {id : α → String}
    {direction : VaultListSortDirection} {list : List α} (hids : (list.map id).Nodup) :
    (inDirection direction (sortBy shown list)).map id = (sortBy tail list).map id ↔
      inDirection direction (sortBy shown list) = sortBy tail list := by
  refine ⟨fun hsame => ?_, congrArg _⟩
  have hshown := (inDirection_perm direction _).trans (sortBy_perm shown list)
  refine eq_of_perm_of_map_eq id (hshown.trans (sortBy_perm tail list).symm) hsame ?_
  exact (hshown.map id).nodup_iff.mpr hids

/-- The tail of a list in a direction has the sequence in which the list shows it. -/
theorem tailKeepsPlace_iff (hR : R.Consistent) {list : RootList}
    {direction : VaultListSortDirection} :
    TailKeepsPlace R list direction ↔
      list.hiddenVaults R direction = (list.hiddenTail R direction).map (·.id) ∧
        list.hiddenGroups R direction = (list.hiddenTailGroups R direction).map (·.id) := by
  have hvaultIds : ((hiddenRoots list).map (·.id)).Nodup :=
    list.vaultIds.sublist (List.filter_sublist.map _)
  have hgroupIds : ((list.groups.filter (·.hidden)).map (·.id)).Nodup :=
    list.groupIds.sublist (List.filter_sublist.map _)
  have hgroupCompare := consistent_compareTail hR (fun g : VaultGroup => g.order) (·.displayName)
  rw [hiddenVaults_eq hR, hiddenGroups_eq hR, hiddenTail_eq, hiddenTailGroups_eq,
    map_inDirection_sortBy_eq_iff hvaultIds,
    map_inDirection_sortBy_eq_iff hgroupIds,
    sortBy_eq_inDirection_iff ((consistent_compareRootRows hR).comap VaultListRootRow.vault)
      (consistent_compareTail hR (fun v : VaultListItem => v.order.getD 0) (·.displayName))
      hvaultIds.of_map, sortBy_eq_inDirection_iff hgroupCompare hgroupCompare hgroupIds.of_map]
  have hgroups : (∀ a b, [a, b].Sublist (list.groups.filter (·.hidden)) →
      ((compareTail R a.order a.displayName b.order b.displayName ≤ 0 ↔ direction = .asc) ↔
        compareTail R a.order a.displayName b.order b.displayName ≤ 0)) ↔
        direction = .asc ∨ (list.groups.filter (·.hidden)).length ≤ 1 := by
    cases direction with
    | asc => simp
    | desc =>
        simp only [reduceCtorEq, false_or, iff_false, not_iff_self, imp_false]
        exact forall_not_pair_sublist_iff
  rw [hgroups]
  exact ⟨fun h => ⟨h.vaults, h.groups⟩, fun h => ⟨h.1, h.2⟩⟩

end

end Upriv.Shared.VaultList
