import Upriv.Shared.VaultGroups.Membership
import Upriv.Support.StableSort
import Mathlib.Data.Nat.Cast.Order.Ring
import Mathlib.Tactic.Ring

/-!
# The order of the root rows

`domain/vault-groups/order.ts` of the shared TypeScript code, and how the list
state takes over the new numbers (`persistRootOrdersFromRows`).  A drop swaps two
rows of the list that is shown.  All root rows are numbered again then, and what
is hidden comes last.
-/

namespace Upriv.Shared.VaultList

/-! ## Numbering the rows -/

def rootRowId : VaultListRootRow → String
  | .vault vault => "vault:" ++ vault.id
  | .group group _ _ => "group:" ++ group.id

def swapItems {α : Type} (items : List α) (fromIndex toIndex : ℕ) : List α :=
  match items[fromIndex]?, items[toIndex]? with
  | some source, some target => (items.set fromIndex target).set toIndex source
  | _, _ => items

def VaultListRootRow.withOrder (order : ℚ) : VaultListRootRow → VaultListRootRow
  | .vault v => .vault { v with order := some order }
  | .group g groupedVaults hiddenVaultCount =>
      .group { g with order := order } groupedVaults hiddenVaultCount

/-- Numbers with which the rows are sorted as they stand. -/
def withRootOrders (rows : List VaultListRootRow) (direction : VaultListSortDirection) :
    List VaultListRootRow :=
  rows.mapIdx fun index row =>
    row.withOrder (if direction = .desc then rows.length - index else index + 1)

def withHiddenTail (visibleRows : List VaultListRootRow) (hiddenUngrouped : List VaultListItem)
    (direction : VaultListSortDirection) (hiddenGroups : List VaultGroup) :
    List VaultListRootRow :=
  let tailVaults := hiddenUngrouped.map VaultListRootRow.vault
  let tailGroups := hiddenGroups.map fun group => VaultListRootRow.group group [] 0
  if tailVaults.length = 0 ∧ tailGroups.length = 0 then withRootOrders visibleRows direction
  else withRootOrders (visibleRows ++ tailVaults ++ tailGroups) direction

/-- Swap the dragged row with the target of the drop. -/
def reorderRootRows (rows : List VaultListRootRow) (draggedKey targetKey : String)
    (direction : VaultListSortDirection) (hiddenUngrouped : List VaultListItem)
    (hiddenGroups : List VaultGroup) : List VaultListRootRow :=
  if draggedKey = targetKey then rows
  else
    match rows.findIdx? (rootRowId · = draggedKey), rows.findIdx? (rootRowId · = targetKey) with
    | some fromIndex, some toIndex =>
        withHiddenTail (swapItems rows fromIndex toIndex) hiddenUngrouped direction hiddenGroups
    | _, _ => rows

def isVaultRow (id : String) : VaultListRootRow → Bool
  | .vault vault => vault.id = id
  | .group _ _ _ => false

def isRowOfGroup (id : String) : VaultListRootRow → Bool
  | .vault _ => false
  | .group group _ _ => group.id = id

/-- Insert a vault that left its group, before `beforeVaultId` or at the end. -/
def insertUngroupedVaultAtRoot (rows : List VaultListRootRow) (vault : VaultListItem)
    (beforeVaultId : Option String) (direction : VaultListSortDirection)
    (hiddenUngrouped : List VaultListItem) (hiddenGroups : List VaultGroup) :
    List VaultListRootRow :=
  let insertAt :=
    match beforeVaultId with
    | none => rows.length
    | some before =>
        if before = "" then rows.length
        else (rows.findIdx? (isVaultRow before)).getD rows.length
  withHiddenTail (rows.take insertAt ++ .vault vault :: rows.drop insertAt) hiddenUngrouped
    direction hiddenGroups

/-! ## The hidden tail -/

section
variable (R : JsRuntime)

/-- By order, then by name. -/
def compareTail (order : ℚ) (name : String) (order' : ℚ) (name' : String) : ℚ :=
  let orderDiff := order - order'
  if orderDiff ≠ 0 then orderDiff else compareDisplayName R name name'

/-- Hidden ungrouped vaults, which the rows omit. -/
def hiddenUngroupedRootVaults (vaults : List VaultListItem) (groups : List VaultGroup)
    (visibleRows : List VaultListRootRow) : List VaultListItem :=
  let omitted := vaults.filter fun vault =>
    isHidden vault && vault.id ∉ groups.flatMap (·.groupedVaults) &&
      !visibleRows.any (isVaultRow vault.id)
  sortBy (fun a b => compareTail R (a.order.getD 0) a.displayName (b.order.getD 0) b.displayName)
    omitted

/-- Hidden groups, which the rows omit. -/
def hiddenOmittedRootGroups (groups : List VaultGroup) (visibleRows : List VaultListRootRow) :
    List VaultGroup :=
  let omitted := groups.filter fun group =>
    group.hidden && !visibleRows.any (isRowOfGroup group.id)
  sortBy (fun a b => compareTail R a.order a.displayName b.order b.displayName) omitted

end

/-! ## Taking the numbers over -/

/-- The number of a row. -/
def VaultListRootRow.order? : VaultListRootRow → Option ℚ
  | .vault v => v.order
  | .group g _ _ => some g.order

def persistVault (nextRows : List VaultListRootRow) (vault : VaultListItem) : VaultListItem :=
  match nextRows.find? (isVaultRow vault.id) with
  | some (.vault row) => { vault with order := row.order }
  | _ => vault

def persistGroup (nextRows : List VaultListRootRow) (group : VaultGroup) : VaultGroup :=
  match nextRows.find? (isRowOfGroup group.id) with
  | some (.group row _ _) => { group with order := row.order }
  | _ => group

/-! ## The rows under new numbers -/

/-- Nothing but the number is another. -/
structure Renumbers (f : VaultListItem → VaultListItem) (g : VaultGroup → VaultGroup) :
    Prop where
  vault : ∀ v, ∃ order, f v = { v with order := order }
  group : ∀ group, ∃ order, g group = { group with order := order }

/-- The same row under new numbers. -/
def renumberedRow (f : VaultListItem → VaultListItem) (g : VaultGroup → VaultGroup) :
    VaultListRootRow → VaultListRootRow
  | .vault vault => .vault (f vault)
  | .group group groupedVaults hiddenVaultCount =>
      .group (g group) (groupedVaults.map f) hiddenVaultCount

section
variable {R : JsRuntime} {f : VaultListItem → VaultListItem} {g : VaultGroup → VaultGroup}
  {vaults : List VaultListItem} {showHidden : Bool}

theorem sortBy_map {α : Type} {compare : α → α → ℚ} (h : α → α)
    (hcompare : ∀ a b, compare (h a) (h b) = compare a b) (list : List α) :
    sortBy compare (list.map h) = (sortBy compare list).map h := by
  refine (List.map_insertionSort _ _ h list fun a _ b _ => ?_).symm
  rw [hcompare]

theorem inDirection_map {α β : Type} (direction : VaultListSortDirection) (h : α → β)
    (list : List α) : inDirection direction (list.map h) = (inDirection direction list).map h := by
  cases direction with
  | asc => rfl
  | desc => exact List.map_reverse.symm

theorem inDirection_sublist {α : Type} {direction : VaultListSortDirection} {list list' : List α}
    (hsublist : list.Sublist list') :
    (inDirection direction list).Sublist (inDirection direction list') := by
  cases direction with
  | asc => exact hsublist
  | desc => exact hsublist.reverse

theorem inDirection_inDirection {α : Type} (direction : VaultListSortDirection)
    (list : List α) : inDirection direction (inDirection direction list) = list := by
  cases direction with
  | asc => rfl
  | desc => exact List.reverse_reverse list

/-- A sort that does not read the number of a vault. -/
theorem sortBy_renumbers (hf : Renumbers f g) {compare : VaultListItem → VaultListItem → ℚ}
    (hcompare : ∀ a b order order',
      compare { a with order := order } { b with order := order' } = compare a b)
    (direction : VaultListSortDirection) (list : List VaultListItem) :
    inDirection direction (sortBy compare (list.map f)) =
      (inDirection direction (sortBy compare list)).map f := by
  rw [← inDirection_map]
  refine congrArg (inDirection direction) (sortBy_map f (fun a b => ?_) list)
  obtain ⟨_, ha⟩ := hf.vault a
  obtain ⟨_, hb⟩ := hf.vault b
  rw [ha, hb, hcompare]

theorem applyGroupedVaultSort_map (hf : Renumbers f g) (list : List VaultListItem)
    (sort : GroupedVaultSort) :
    applyGroupedVaultSort R (list.map f) sort = (applyGroupedVaultSort R list sort).map f := by
  obtain ⟨mode, direction⟩ := sort
  cases mode with
  | order => exact inDirection_map direction f list
  | name => exact sortBy_renumbers hf (fun _ _ _ _ => rfl) direction list
  | state => exact sortBy_renumbers hf (fun _ _ _ _ => rfl) direction list
  | lastAccessed => exact sortBy_renumbers hf (fun _ _ _ _ => rfl) direction list

theorem byId_map (hf : Renumbers f g) (id : String) :
    byId (vaults.map f) id = (byId vaults id).map f := by
  rw [byId, byId, ← List.map_reverse, List.find?_map]
  congr 2
  funext v
  obtain ⟨_, hv⟩ := hf.vault v
  rw [Function.comp_apply, hv]

def GroupLoop.mapVaults (f : VaultListItem → VaultListItem) (loop : GroupLoop) : GroupLoop :=
  { loop with inGroupOrder := loop.inGroupOrder.map f }

theorem claimVault_map (hf : Renumbers f g) (loop : GroupLoop) (id : String) :
    claimVault (vaults.map f) showHidden (loop.mapVaults f) id =
      (claimVault vaults showHidden loop id).mapVaults f := by
  rw [claimVault, claimVault, byId_map hf]
  by_cases hclaimed : id ∈ loop.claimed
  · rw [if_pos hclaimed]
    exact if_pos hclaimed
  · rw [if_neg hclaimed]
    refine (if_neg hclaimed).trans ?_
    cases byId vaults id with
    | none => rfl
    | some v =>
        obtain ⟨_, hv⟩ := hf.vault v
        have hhidden : isHidden (f v) = isHidden v := by
          rw [hv]
          rfl
        simp only [Option.map_some, hhidden]
        split
        · rfl
        · simp [GroupLoop.mapVaults]

theorem claimVaults_map (hf : Renumbers f g) (loop : GroupLoop) (ids : List String) :
    claimVaults (vaults.map f) showHidden (loop.mapVaults f) ids =
      (claimVaults vaults showHidden loop ids).mapVaults f := by
  induction ids generalizing loop with
  | nil => rfl
  | cons id ids ih =>
      rw [claimVaults, claimVaults, List.foldl_cons, List.foldl_cons, claimVault_map hf]
      exact ih _

def RowsLoop.mapRows (f : VaultListItem → VaultListItem) (g : VaultGroup → VaultGroup)
    (loop : RowsLoop) : RowsLoop :=
  { loop with groupRows := loop.groupRows.map (renumberedRow f g) }

theorem pushGroup_map (hf : Renumbers f g) (loop : RowsLoop) (group : VaultGroup) :
    pushGroup R (vaults.map f) showHidden (loop.mapRows f g) (g group) =
      (pushGroup R vaults showHidden loop group).mapRows f g := by
  obtain ⟨order, hgroup⟩ := hf.group group
  have hinner := @claimVaults_map f g vaults showHidden hf ⟨loop.claimed, [], 0⟩
    group.groupedVaults
  have hstart : GroupLoop.mapVaults f ⟨loop.claimed, [], 0⟩ = ⟨loop.claimed, [], 0⟩ := rfl
  rw [hstart] at hinner
  rw [pushGroup, pushGroup, hgroup]
  simp only [RowsLoop.mapRows, hinner]
  split
  · rfl
  · have hsort := @applyGroupedVaultSort_map R f g hf
      (claimVaults vaults showHidden ⟨loop.claimed, [], 0⟩ group.groupedVaults).inGroupOrder
      (groupedVaultSortOf group)
    simp only [RowsLoop.mk.injEq, List.map_append, List.map_cons, List.map_nil, renumberedRow,
      ← hsort, hgroup]
    exact ⟨rfl, rfl⟩

theorem foldl_pushGroup_map (hf : Renumbers f g) (groups : List VaultGroup) (loop : RowsLoop) :
    (groups.map g).foldl (pushGroup R (vaults.map f) showHidden) (loop.mapRows f g) =
      (groups.foldl (pushGroup R vaults showHidden) loop).mapRows f g := by
  induction groups generalizing loop with
  | nil => rfl
  | cons group groups ih =>
      rw [List.map_cons, List.foldl_cons, List.foldl_cons, pushGroup_map hf]
      exact ih _

/-- New numbers change the order of the rows at most. -/
theorem applyVaultListHierarchySort_map (hf : Renumbers f g) (groups : List VaultGroup)
    (sort sort' : VaultListSort) (options : Option VaultListHierarchyOptions) :
    (applyVaultListHierarchySort R (vaults.map f) (groups.map g) sort' options).Perm
      ((applyVaultListHierarchySort R vaults groups sort options).map (renumberedRow f g)) := by
  have hfold := @foldl_pushGroup_map R f g vaults (showHiddenOf options) hf groups ⟨[], []⟩
  have hstart : RowsLoop.mapRows f g ⟨[], []⟩ = ⟨[], []⟩ := rfl
  rw [hstart] at hfold
  rw [applyVaultListHierarchySort, applyVaultListHierarchySort, hfold]
  generalize groups.foldl (pushGroup R vaults (showHiddenOf options)) ⟨[], []⟩ = loop
  have hungrouped : (vaults.map f).filter (fun v => v.id ∉ (loop.mapRows f g).claimed &&
        (showHiddenOf options || !isHidden v)) =
      (vaults.filter fun v => v.id ∉ loop.claimed && (showHiddenOf options || !isHidden v)).map
        f := by
    rw [List.filter_map]
    congr 2
    funext v
    obtain ⟨_, hv⟩ := hf.vault v
    rw [Function.comp_apply, hv]
    rfl
  rw [hungrouped]
  generalize vaults.filter (fun v => v.id ∉ loop.claimed &&
    (showHiddenOf options || !isHidden v)) = ungrouped
  have hroots : ((applyVaultListSort R (ungrouped.map f) ⟨.order, .asc⟩).map
        VaultListRootRow.vault).Perm
      (((applyVaultListSort R ungrouped ⟨.order, .asc⟩).map VaultListRootRow.vault).map
        (renumberedRow f g)) := by
    have hmap : ∀ list : List VaultListItem, (list.map VaultListRootRow.vault).map
        (renumberedRow f g) = (list.map f).map VaultListRootRow.vault := by
      intro list
      rw [List.map_map, List.map_map]
      rfl
    rw [hmap]
    refine List.Perm.map _ ((applyVaultListSort_perm R _ _).trans ?_)
    exact ((applyVaultListSort_perm R ungrouped _).map f).symm
  refine ((inDirection_perm _ _).trans (sortBy_perm _ _)).trans ?_
  refine List.Perm.trans ?_ (((inDirection_perm _ _).trans (sortBy_perm _ _)).map _).symm
  rw [List.map_append]
  exact hroots.append_right _

end

/-! ## Keys of rows -/

/-- The kind and the id of a row. -/
def rowKey : VaultListRootRow → Bool × String
  | .vault vault => (false, vault.id)
  | .group group _ _ => (true, group.id)

/-- The number that the order of the rows goes by. -/
def rowNumber : VaultListRootRow → ℚ
  | .vault vault => vault.order.getD 999
  | .group group _ _ => group.order

section
variable {R : JsRuntime} {row row' : VaultListRootRow} {id : String} {order : ℚ}

theorem rootRowId_eq_iff : rootRowId row = rootRowId row' ↔ rowKey row = rowKey row' := by
  have hkinds : ∀ a b : String, "vault:" ++ a ≠ "group:" ++ b := by
    intro a b h
    have hfirst := congrArg (·.toList.head?) h
    simp [String.toList_append] at hfirst
  cases row with
  | vault v =>
      cases row' with
      | vault v' => simp [rootRowId, rowKey]
      | group g' _ _ =>
          rw [rootRowId, rootRowId, rowKey, rowKey]
          exact iff_of_false (hkinds _ _) (by simp)
  | group g _ _ =>
      cases row' with
      | vault v' =>
          rw [rootRowId, rootRowId, rowKey, rowKey]
          exact iff_of_false (hkinds _ _).symm (by simp)
      | group g' _ _ => simp [rootRowId, rowKey]

theorem nodup_rowKey {rows : List VaultListRootRow} (h : (rows.map rootRowId).Nodup) :
    (rows.map rowKey).Nodup := by
  rw [List.Nodup, List.pairwise_map] at h ⊢
  exact h.imp fun hne => rootRowId_eq_iff.not.mp hne

theorem exists_findIdx?_key {rows : List VaultListRootRow} {key : String}
    (h : key ∈ rows.map rootRowId) :
    ∃ index, rows.findIdx? (rootRowId · = key) = some index ∧
      (rows[index]?).map rootRowId = some key := by
  obtain ⟨row, hrow, hkey⟩ := List.mem_map.mp h
  cases hindex : rows.findIdx? (rootRowId · = key) with
  | none =>
      rw [List.findIdx?_eq_none_iff] at hindex
      exact absurd (decide_eq_true hkey) (by simp [hindex row hrow])
  | some index =>
      obtain ⟨hlt, hat, _⟩ := List.findIdx?_eq_some_iff_getElem.mp hindex
      refine ⟨index, rfl, ?_⟩
      rw [List.getElem?_eq_getElem hlt, Option.map_some, of_decide_eq_true hat]

theorem mem_of_findIdx?_key {rows : List VaultListRootRow} {key : String} {index : ℕ}
    (h : rows.findIdx? (rootRowId · = key) = some index) : key ∈ rows.map rootRowId := by
  obtain ⟨hlt, hat, _⟩ := List.findIdx?_eq_some_iff_getElem.mp h
  exact List.mem_map.mpr ⟨rows[index], List.getElem_mem hlt, of_decide_eq_true hat⟩

theorem isVaultRow_eq : isVaultRow id row = decide (rowKey row = (false, id)) := by
  cases row <;> simp [isVaultRow, rowKey]

theorem isRowOfGroup_eq : isRowOfGroup id row = decide (rowKey row = (true, id)) := by
  cases row <;> simp [isRowOfGroup, rowKey]

theorem rowKey_withOrder : rowKey (row.withOrder order) = rowKey row := by
  cases row <;> rfl

theorem rowNumber_withOrder : rowNumber (row.withOrder order) = order := by
  cases row <;> rfl

theorem order?_withOrder : (row.withOrder order).order? = some order := by
  cases row <;> rfl

theorem rowNumber_of_order? (h : row.order? = some order) : rowNumber row = order := by
  cases row with
  | vault v =>
      rw [VaultListRootRow.order?] at h
      rw [rowNumber, h, Option.getD_some]
  | group g _ _ => exact Option.some.inj h

theorem rootSortKey_order : rootSortKey R row .order = rowNumber row := by
  cases row <;> rfl

theorem rowKey_renumberedRow {f : VaultListItem → VaultListItem} {g : VaultGroup → VaultGroup}
    (hf : Renumbers f g) : rowKey (renumberedRow f g row) = rowKey row := by
  cases row with
  | vault v =>
      obtain ⟨_, hv⟩ := hf.vault v
      rw [renumberedRow, rowKey, hv]
      rfl
  | group group _ _ =>
      obtain ⟨_, hgroup⟩ := hf.group group
      rw [renumberedRow, rowKey, hgroup]
      rfl

/-- Where the numbers differ they decide. -/
theorem compareRootRows_order_iff {a b : VaultListRootRow} (hne : rowNumber a ≠ rowNumber b) :
    compareRootRows R a b .order ≤ 0 ↔ rowNumber a < rowNumber b := by
  have hdiff : rowNumber a - rowNumber b ≠ 0 := sub_ne_zero.mpr hne
  rw [compareRootRows, compareByKey, rootSortKey_order, rootSortKey_order, if_pos hdiff,
    sub_nonpos, le_iff_lt_or_eq, or_iff_left hne]

end

/-! ## Numbers in the order of the list -/

section
variable {rows : List VaultListRootRow} {direction : VaultListSortDirection}

theorem map_rowKey_withRootOrders :
    (withRootOrders rows direction).map rowKey = rows.map rowKey := by
  refine List.ext_getElem (by simp [withRootOrders]) fun index _ _ => ?_
  simp only [withRootOrders, List.getElem_map, List.getElem_mapIdx, rowKey_withOrder]

theorem map_order?_withRootOrders :
    (withRootOrders rows direction).map (·.order?) =
      (List.range rows.length).map fun index : ℕ =>
        some (if direction = .desc then (rows.length : ℚ) - index else index + 1) := by
  refine List.ext_getElem (by simp [withRootOrders]) fun index _ _ => ?_
  simp only [withRootOrders, List.getElem_map, List.getElem_mapIdx, List.getElem_range,
    order?_withOrder]

/-- The numbers are those from one to the number of the rows. -/
theorem map_order?_perm :
    ((withRootOrders rows direction).map (·.order?)).Perm
      ((List.range rows.length).map fun index : ℕ => some ((index : ℚ) + 1)) := by
  rw [map_order?_withRootOrders]
  cases direction with
  | asc => exact .refl _
  | desc =>
      refine List.Perm.trans ?_ (List.reverse_perm _)
      refine .of_eq (List.ext_getElem (by simp) fun index hindex _ => ?_)
      have hlt : index < rows.length := by simpa using hindex
      have hcast : ((rows.length - 1 - index : ℕ) : ℚ) = rows.length - 1 - index := by
        rw [Nat.cast_sub (by omega), Nat.cast_sub (by omega), Nat.cast_one]
      simp only [List.getElem_map, List.getElem_range, List.getElem_reverse, List.length_map,
        List.length_range, hcast, if_true]
      congr 1
      ring

theorem pairwise_withRootOrders :
    (inDirection direction (withRootOrders rows direction)).Pairwise
      fun a b => rowNumber a < rowNumber b := by
  cases direction with
  | asc =>
      rw [inDirection, withRootOrders, List.pairwise_iff_getElem]
      intro i j hi hj hlt
      simp only [List.getElem_mapIdx, rowNumber_withOrder]
      exact add_lt_add_left (Nat.cast_lt.mpr hlt) 1
  | desc =>
      rw [inDirection, List.pairwise_reverse, withRootOrders, List.pairwise_iff_getElem]
      intro i j hi hj hlt
      simp only [List.getElem_mapIdx, rowNumber_withOrder]
      exact sub_lt_sub_left (Nat.cast_lt.mpr hlt) _

end

/-! ## The rows that are numbered, shown again -/

section
variable {R : JsRuntime} {vaults : List VaultListItem} {groups : List VaultGroup}
  {next first : List VaultListRootRow} {row : VaultListRootRow}
  {direction : VaultListSortDirection} {options : Option VaultListHierarchyOptions}

theorem persistVault_eq {v : VaultListItem}
    (h : next.find? (rowKey · = (false, v.id)) = some row) :
    persistVault next v = { v with order := row.order? } := by
  have hkey := List.find?_some h
  rw [decide_eq_true_eq] at hkey
  have hfind : next.find? (isVaultRow v.id) = some row := by
    rw [← h]
    congr 1
    exact funext fun other => isVaultRow_eq
  cases row with
  | vault w =>
      rw [persistVault, hfind]
      rfl
  | group _ _ _ => cases hkey

theorem persistVault_eq_self {v : VaultListItem}
    (h : next.find? (rowKey · = (false, v.id)) = none) : persistVault next v = v := by
  have hfind : next.find? (isVaultRow v.id) = none := by
    rw [← h]
    congr 1
    exact funext fun other => isVaultRow_eq
  rw [persistVault, hfind]

theorem persistGroup_eq {group : VaultGroup}
    (h : next.find? (rowKey · = (true, group.id)) = some row) :
    persistGroup next group = { group with order := rowNumber row } := by
  have hkey := List.find?_some h
  rw [decide_eq_true_eq] at hkey
  have hfind : next.find? (isRowOfGroup group.id) = some row := by
    rw [← h]
    congr 1
    exact funext fun other => isRowOfGroup_eq
  cases row with
  | vault w => cases hkey
  | group _ _ _ =>
      rw [persistGroup, hfind]
      rfl

theorem persistGroup_eq_self {group : VaultGroup}
    (h : next.find? (rowKey · = (true, group.id)) = none) : persistGroup next group = group := by
  have hfind : next.find? (isRowOfGroup group.id) = none := by
    rw [← h]
    congr 1
    exact funext fun other => isRowOfGroup_eq
  rw [persistGroup, hfind]

theorem renumbers_persist (next : List VaultListRootRow) :
    Renumbers (persistVault next) (persistGroup next) where
  vault v := by
    cases hfind : next.find? (rowKey · = (false, v.id)) with
    | none => exact ⟨v.order, persistVault_eq_self hfind⟩
    | some row => exact ⟨_, persistVault_eq hfind⟩
  group group := by
    cases hfind : next.find? (rowKey · = (true, group.id)) with
    | none => exact ⟨group.order, persistGroup_eq_self hfind⟩
    | some row => exact ⟨_, persistGroup_eq hfind⟩

/-- A row takes the number of the first row with its key. -/
theorem rowNumber_persist {numbered : VaultListRootRow}
    (h : next.find? (rowKey · = rowKey row) = some numbered)
    (hnumber : numbered.order?.isSome = true) :
    rowNumber (renumberedRow (persistVault next) (persistGroup next) row) =
      rowNumber numbered := by
  cases row with
  | vault v =>
      obtain ⟨order, horder⟩ := Option.isSome_iff_exists.mp hnumber
      rw [renumberedRow, rowNumber, persistVault_eq h, horder, rowNumber_of_order? horder]
      rfl
  | group group _ _ =>
      rw [renumberedRow, rowNumber, persistGroup_eq h]

/-- A list that is numbered as it stands is shown as it stands. -/
theorem map_rowKey_numbered {sort : VaultListSort} (rest : List VaultListRootRow)
    (hfirst : (first.map rowKey).Nodup)
    (hnumbers : ∀ row ∈ first, row.order?.isSome = true)
    (hsorted : (inDirection direction first).Pairwise fun a b => rowNumber a < rowNumber b)
    (hrows : ((applyVaultListHierarchySort R vaults groups sort options).map rowKey).Perm
      (first.map rowKey)) :
    (applyVaultListHierarchySort R (vaults.map (persistVault (first ++ rest)))
        (groups.map (persistGroup (first ++ rest))) ⟨.order, direction⟩ options).map rowKey =
      first.map rowKey := by
  set next := first ++ rest with hnext
  -- The number of a row of the list, by its key.
  let number (key : Bool × String) : ℚ := ((first.find? (rowKey · = key)).map rowNumber).getD 0
  have hnumberFirst : ∀ row ∈ first, number (rowKey row) = rowNumber row := by
    intro row hrow
    have hfind : first.find? (rowKey · = rowKey row) = some row :=
      (find?_key_eq_some hfirst).mpr ⟨hrow, rfl⟩
    simp only [number, hfind, Option.map_some, Option.getD_some]
  have hperm := @applyVaultListHierarchySort_map R _ _ vaults
    (renumbers_persist next) groups sort ⟨.order, direction⟩ options
  set shown := applyVaultListHierarchySort R (vaults.map (persistVault next))
    (groups.map (persistGroup next)) ⟨.order, direction⟩ options with hshown
  have hkeys : (shown.map rowKey).Perm (first.map rowKey) := by
    refine (hperm.map rowKey).trans ?_
    rw [List.map_map]
    refine (List.Perm.of_eq (List.map_congr_left fun row _ => ?_)).trans hrows
    exact rowKey_renumberedRow (renumbers_persist next)
  have hnumber : ∀ row ∈ shown, number (rowKey row) = rowNumber row := by
    intro row hrow
    obtain ⟨source, hsource, rfl⟩ := List.mem_map.mp (hperm.mem_iff.mp hrow)
    rw [rowKey_renumberedRow (renumbers_persist next)]
    obtain ⟨numbered, hnumbered, hkey⟩ := List.mem_map.mp
      (hrows.mem_iff.mp (List.mem_map_of_mem hsource))
    have hfind : next.find? (rowKey · = rowKey source) = some numbered := by
      rw [hnext, List.find?_append, (find?_key_eq_some hfirst).mpr ⟨hnumbered, hkey⟩]
      rfl
    rw [rowNumber_persist hfind (hnumbers numbered hnumbered), ← hkey]
    exact hnumberFirst numbered hnumbered
  obtain ⟨root, hroot⟩ : ∃ root, shown =
      inDirection direction (sortBy (fun a b => compareRootRows R a b .order) root) := ⟨_, rfl⟩
  have hrootPerm : root.Perm shown := by
    rw [hroot]
    exact ((inDirection_perm _ _).trans (sortBy_perm _ _)).symm
  have hnodup : (root.map rowNumber).Nodup := by
    have hshownNumbers : shown.map rowNumber = (shown.map rowKey).map number := by
      rw [List.map_map]
      exact (List.map_congr_left hnumber).symm
    have hfirstNumbers : first.map rowNumber = (first.map rowKey).map number := by
      rw [List.map_map]
      exact (List.map_congr_left hnumberFirst).symm
    rw [(hrootPerm.map _).nodup_iff, hshownNumbers, (hkeys.map number).nodup_iff,
      ← hfirstNumbers, ← ((inDirection_perm direction first).map _).nodup_iff, List.Nodup,
      List.pairwise_map]
    exact hsorted.imp fun hlt => hlt.ne
  have hascending : (sortBy (fun a b => compareRootRows R a b .order) root).Pairwise
      fun a b => rowNumber a < rowNumber b :=
    pairwise_insertionSort_key hnodup fun a _ b _ hne => compareRootRows_order_iff hne
  -- Both lists have the same keys, and the numbers put them in one order.
  have hsame : (sortBy (fun a b => compareRootRows R a b .order) root).map rowKey =
      (inDirection direction first).map rowKey := by
    have hperm' : ((sortBy (fun a b => compareRootRows R a b .order) root).map rowKey).Perm
        ((inDirection direction first).map rowKey) := by
      refine (((sortBy_perm _ _).trans hrootPerm).map _).trans (hkeys.trans ?_)
      exact ((inDirection_perm direction first).map _).symm
    refine @List.Perm.eq_of_pairwise _ (fun a b => number a < number b) _ _ ?_ ?_ ?_ hperm'
    · intro a b _ _ hab hba
      exact absurd hab hba.asymm
    · rw [List.pairwise_map]
      refine hascending.imp_of_mem fun {a b} ha hb hlt => ?_
      have hmem : ∀ row ∈ sortBy (fun a b => compareRootRows R a b .order) root, row ∈ shown :=
        fun row hrow => hrootPerm.mem_iff.mp ((sortBy_perm _ _).mem_iff.mp hrow)
      rwa [hnumber a (hmem a ha), hnumber b (hmem b hb)]
    · rw [List.pairwise_map]
      refine hsorted.imp_of_mem fun {a b} ha hb hlt => ?_
      have hmem : ∀ row ∈ inDirection direction first, row ∈ first :=
        fun row hrow => (inDirection_perm direction first).mem_iff.mp hrow
      rwa [hnumberFirst a (hmem a ha), hnumberFirst b (hmem b hb)]
  rw [hroot, ← inDirection_map, hsame, ← inDirection_map, inDirection_inDirection]

end

/-! ## Dropping a row on another -/

/-- A row without the numbers in it. -/
def unnumbered : VaultListRootRow → VaultListRootRow :=
  renumberedRow (fun vault => { vault with order := none }) fun group => { group with order := 0 }

/-- What a drop shows: the rows with two of them swapped.  The numbers go from one on,
and the rows that are not shown take a part of them. -/
structure ShowsSwap (R : JsRuntime) (vaults : List VaultListItem) (groups : List VaultGroup)
    (options : Option VaultListHierarchyOptions) (rows : List VaultListRootRow)
    (draggedKey targetKey : String) (direction : VaultListSortDirection) (tailLength : ℕ)
    (next : List VaultListRootRow) : Prop where
  numbers : (next.map (·.order?)).Perm
    ((List.range (rows.length + tailLength)).map fun index : ℕ => some ((index : ℚ) + 1))
  shown : ∃ fromIndex toIndex, (rows[fromIndex]?).map rootRowId = some draggedKey ∧
    (rows[toIndex]?).map rootRowId = some targetKey ∧
    (applyVaultListHierarchySort R (vaults.map (persistVault next))
        (groups.map (persistGroup next)) ⟨.order, direction⟩ options).map unnumbered =
      (swapItems rows fromIndex toIndex).map unnumbered

section
variable {R : JsRuntime} {vaults : List VaultListItem} {groups : List VaultGroup}
  {rows visible : List VaultListRootRow} {direction : VaultListSortDirection}
  {options : Option VaultListHierarchyOptions} {hiddenUngrouped : List VaultListItem}
  {hiddenGroups : List VaultGroup}

theorem swapItems_perm {α : Type} (items : List α) (fromIndex toIndex : ℕ) :
    (swapItems items fromIndex toIndex).Perm items := by
  rw [swapItems]
  split
  · rename_i hfrom hto
    obtain ⟨hi, rfl⟩ := List.getElem?_eq_some_iff.mp hfrom
    obtain ⟨hj, rfl⟩ := List.getElem?_eq_some_iff.mp hto
    exact List.set_set_perm hi hj
  · exact .refl _

/-- The rows that are not shown, as rows. -/
def tailRows (hiddenUngrouped : List VaultListItem) (hiddenGroups : List VaultGroup) :
    List VaultListRootRow :=
  hiddenUngrouped.map .vault ++ hiddenGroups.map fun group => .group group [] 0

theorem length_tailRows :
    (tailRows hiddenUngrouped hiddenGroups).length =
      hiddenUngrouped.length + hiddenGroups.length := by
  simp [tailRows]

/-- No tail is no special case. -/
theorem withHiddenTail_eq :
    withHiddenTail visible hiddenUngrouped direction hiddenGroups =
      withRootOrders (visible ++ tailRows hiddenUngrouped hiddenGroups) direction := by
  rw [withHiddenTail, tailRows, ← List.append_assoc]
  split
  · rename_i hempty
    rw [List.eq_nil_of_length_eq_zero hempty.1, List.eq_nil_of_length_eq_zero hempty.2,
      List.append_nil, List.append_nil]
  · rfl

theorem rowKey_unnumbered {row : VaultListRootRow} : rowKey (unnumbered row) = rowKey row := by
  cases row <;> rfl

theorem unnumbered_renumberedRow {f : VaultListItem → VaultListItem} {g : VaultGroup → VaultGroup}
    (hf : Renumbers f g) (row : VaultListRootRow) :
    unnumbered (renumberedRow f g row) = unnumbered row := by
  have hvault : ∀ v, ({ f v with order := none } : VaultListItem) = { v with order := none } := by
    intro v
    obtain ⟨_, hv⟩ := hf.vault v
    rw [hv]
  cases row with
  | vault v => exact congrArg VaultListRootRow.vault (hvault v)
  | group group members hiddenVaultCount =>
      obtain ⟨_, hgroup⟩ := hf.group group
      simp only [unnumbered, renumberedRow, List.map_map, hgroup]
      exact congrArg₂ (VaultListRootRow.group · · hiddenVaultCount) rfl
        (List.map_congr_left fun v _ => hvault v)

/-- Rows that are numbered in the order of `visible` are shown in it, whatever comes
after them. -/
theorem map_rowKey_withHiddenTail {sort : VaultListSort}
    (hiddenUngrouped : List VaultListItem) (hiddenGroups : List VaultGroup)
    (hkeys : (visible.map rowKey).Nodup)
    (hrows : ((applyVaultListHierarchySort R vaults groups sort options).map rowKey).Perm
      (visible.map rowKey)) :
    (applyVaultListHierarchySort R
        (vaults.map (persistVault
          (withHiddenTail visible hiddenUngrouped direction hiddenGroups)))
        (groups.map (persistGroup
          (withHiddenTail visible hiddenUngrouped direction hiddenGroups)))
        ⟨.order, direction⟩ options).map rowKey = visible.map rowKey := by
  set next := withHiddenTail visible hiddenUngrouped direction hiddenGroups with hnext
  rw [withHiddenTail_eq] at hnext
  have htake : (next.take visible.length).map rowKey = visible.map rowKey := by
    rw [List.map_take, hnext, map_rowKey_withRootOrders, List.map_append,
      List.take_append_of_le_length (by simp), List.take_of_length_le (by simp)]
  have hnumbers : ∀ row ∈ next.take visible.length, row.order?.isSome = true := by
    intro row hrow
    have hmem := List.mem_map_of_mem (f := (·.order?)) (List.mem_of_mem_take hrow)
    rw [hnext, map_order?_withRootOrders] at hmem
    obtain ⟨_, _, hsome⟩ := List.mem_map.mp hmem
    rw [← hsome]
    rfl
  have hsorted : (inDirection direction (next.take visible.length)).Pairwise
      fun a b => rowNumber a < rowNumber b := by
    refine List.Pairwise.sublist (inDirection_sublist (List.take_sublist _ _)) ?_
    rw [hnext]
    exact pairwise_withRootOrders
  have hshown := map_rowKey_numbered (next.drop visible.length) (htake ▸ hkeys) hnumbers
    hsorted (htake ▸ hrows)
  rwa [List.take_append_drop, htake] at hshown

theorem map_unnumbered_withHiddenTail {sort : VaultListSort}
    (hiddenUngrouped : List VaultListItem) (hiddenGroups : List VaultGroup)
    (hkeys : (visible.map rowKey).Nodup)
    (hrows : visible.Perm (applyVaultListHierarchySort R vaults groups sort options)) :
    (applyVaultListHierarchySort R
        (vaults.map (persistVault
          (withHiddenTail visible hiddenUngrouped direction hiddenGroups)))
        (groups.map (persistGroup
          (withHiddenTail visible hiddenUngrouped direction hiddenGroups)))
        ⟨.order, direction⟩ options).map unnumbered = visible.map unnumbered := by
  have hshown := @map_rowKey_withHiddenTail R vaults groups visible direction options sort
    hiddenUngrouped hiddenGroups hkeys (hrows.symm.map rowKey)
  set next := withHiddenTail visible hiddenUngrouped direction hiddenGroups
  have hperm := @applyVaultListHierarchySort_map R _ _ vaults (renumbers_persist next) groups
    sort ⟨.order, direction⟩ options
  have hkeysOf : ∀ list : List VaultListRootRow,
      (list.map unnumbered).map rowKey = list.map rowKey := by
    intro list
    rw [List.map_map]
    exact List.map_congr_left fun row _ => rowKey_unnumbered
  have hsame : ∀ list : List VaultListRootRow,
      (list.map (renumberedRow (persistVault next) (persistGroup next))).map unnumbered =
        list.map unnumbered := by
    intro list
    rw [List.map_map]
    exact List.map_congr_left fun row _ => unnumbered_renumberedRow (renumbers_persist next) row
  refine eq_of_perm_of_map_eq rowKey ?_ ?_ ?_
  · refine (hperm.map unnumbered).trans ?_
    rw [hsame]
    exact hrows.symm.map unnumbered
  · rw [hkeysOf, hkeysOf, hshown]
  · rwa [hkeysOf, hshown]

/-- The drop shows the rows with the dragged row and its target swapped.  A row that is
dropped on itself leaves all numbers as they are. -/
theorem reorderRootRows_showsSwap {sort : VaultListSort} {draggedKey targetKey : String}
    (hrows : rows.Perm (applyVaultListHierarchySort R vaults groups sort options))
    (hkeys : (rows.map rootRowId).Nodup) (hdragged : draggedKey ∈ rows.map rootRowId)
    (htarget : targetKey ∈ rows.map rootRowId) :
    (draggedKey = targetKey →
      reorderRootRows rows draggedKey targetKey direction hiddenUngrouped hiddenGroups = rows) ∧
    (draggedKey ≠ targetKey →
      ShowsSwap R vaults groups options rows draggedKey targetKey direction
        (hiddenUngrouped.length + hiddenGroups.length)
        (reorderRootRows rows draggedKey targetKey direction hiddenUngrouped hiddenGroups)) := by
  constructor
  · intro hsame
    rw [reorderRootRows, if_pos hsame]
  intro hne
  obtain ⟨fromIndex, hfromIndex, hfrom⟩ := exists_findIdx?_key hdragged
  obtain ⟨toIndex, htoIndex, hto⟩ := exists_findIdx?_key htarget
  have hnext : reorderRootRows rows draggedKey targetKey direction hiddenUngrouped hiddenGroups =
      withHiddenTail (swapItems rows fromIndex toIndex) hiddenUngrouped direction
        hiddenGroups := by
    rw [reorderRootRows, if_neg hne, hfromIndex, htoIndex]
  rw [hnext]
  have hswap := swapItems_perm rows fromIndex toIndex
  have hswapKeys : ((swapItems rows fromIndex toIndex).map rowKey).Nodup := by
    rw [(hswap.map rowKey).nodup_iff]
    exact nodup_rowKey hkeys
  constructor
  · rw [withHiddenTail_eq]
    refine map_order?_perm.trans (.of_eq ?_)
    rw [List.length_append, hswap.length_eq, length_tailRows]
  · refine ⟨fromIndex, toIndex, hfrom, hto, ?_⟩
    exact map_unnumbered_withHiddenTail hiddenUngrouped hiddenGroups hswapKeys (hswap.trans hrows)

end

/-! ### Two vaults and a group -/

def plainRuntime : JsRuntime := ⟨fun _ _ => 0, fun _ _ => 0, fun _ => none⟩

def rootVaults : List VaultListItem :=
  [⟨"notes", "Notes", none, some 5, none, ""⟩, ⟨"taxes", "Taxes", none, some 7, none, ""⟩,
    ⟨"diary", "Diary", none, some 2, some true, ""⟩]

def rootGroups : List VaultGroup := [⟨"work", "Work", 6, false, ["taxes"], none, none⟩]

def rootRows : List VaultListRootRow :=
  [.group ⟨"work", "Work", 6, false, ["taxes"], none, none⟩
      [⟨"taxes", "Taxes", none, some 7, none, ""⟩] 0,
    .vault ⟨"notes", "Notes", none, some 5, none, ""⟩]

theorem rootRows_shown :
    rootRows =
      applyVaultListHierarchySort plainRuntime rootVaults rootGroups ⟨.order, .desc⟩ none := by
  decide +kernel

theorem reorderRootRows_showsSwap_work :
    ("vault:notes" = "group:work" →
      reorderRootRows rootRows "vault:notes" "group:work" .desc
        [⟨"diary", "Diary", none, some 2, some true, ""⟩] [] = rootRows) ∧
    ("vault:notes" ≠ "group:work" →
      ShowsSwap plainRuntime rootVaults rootGroups none rootRows "vault:notes" "group:work" .desc 1
        (reorderRootRows rootRows "vault:notes" "group:work" .desc
          [⟨"diary", "Diary", none, some 2, some true, ""⟩] [])) :=
  reorderRootRows_showsSwap (.of_eq rootRows_shown) (by decide) (by decide) (by decide)

/-- A row that is dropped on itself keeps a number that is out of the range. -/
theorem reorderRootRows_onto_itself :
    (([.vault ⟨"notes", "Notes", none, some 5, none, ""⟩] : List VaultListRootRow) =
      applyVaultListHierarchySort plainRuntime [⟨"notes", "Notes", none, some 5, none, ""⟩] []
        ⟨.order, .asc⟩ none) ∧
    ¬ ShowsSwap plainRuntime [⟨"notes", "Notes", none, some 5, none, ""⟩] [] none
        [.vault ⟨"notes", "Notes", none, some 5, none, ""⟩] "vault:notes" "vault:notes" .asc 0
        (reorderRootRows [.vault ⟨"notes", "Notes", none, some 5, none, ""⟩] "vault:notes"
          "vault:notes" .asc [] []) := by
  refine ⟨by decide, fun h => ?_⟩
  obtain ⟨index, hindex, hnumber⟩ := List.mem_map.mp
    (h.numbers.mem_iff.mp (List.mem_singleton.mpr rfl))
  have hfirst : index = 0 := by simpa using hindex
  have hone : ((index : ℚ) + 1) = 5 := Option.some.inj hnumber
  rw [hfirst] at hone
  norm_num at hone

end Upriv.Shared.VaultList
