import Mathlib.Data.List.Sort
import Mathlib.Data.Rat.Defs
import Mathlib.Algebra.Order.Ring.Rat

/-!
# Sorting the vault list

`domain/vault-list/{compare,order,sort}.ts` of the shared TypeScript code.
Finite JavaScript numbers are rationals, and `Array.prototype.sort` is the
stable sort by a comparator.
-/

namespace Upriv.Shared.VaultList

/-- What the list takes from the JavaScript runtime. -/
structure JsRuntime where
  /-- `localeCompare` of the first characters in lower case.  A first character
  can be half of a surrogate pair, which is no `String`. -/
  compareFirst : String → String → ℚ
  /-- `localeCompare` with `sensitivity: "base"`. -/
  compareBase : String → String → ℚ
  /-- `Date.parse`; `none` is `NaN`. -/
  dateParse : String → Option ℚ

inductive VaultSession
  | opened
  | closing
  | recovery
  deriving DecidableEq, Repr

inductive VaultDisplayStatus
  | opened
  | opening
  | creating
  | queued
  | closing
  | closed
  | recovery
  deriving DecidableEq, Repr

/-- The fields of a list row that the hierarchy reads. -/
structure VaultListItem where
  id : String
  displayName : String
  session : Option VaultSession
  order : Option ℚ
  hidden : Option Bool
  lastAccessedAt : String
  deriving DecidableEq, Repr

def resolveVaultDisplayStatus (row : VaultListItem) : VaultDisplayStatus :=
  match row.session with
  | some .recovery => .recovery
  | some .closing => .closing
  | some .opened => .opened
  | none => .closed

def STATE_RANK : VaultDisplayStatus → ℚ
  | .opened => 0
  | .opening => 1
  | .creating => 1
  | .queued => 1
  | .closing => 2
  | .closed => 3
  | .recovery => 4

/-! ## Comparators -/

/-- `Array.prototype.sort` with a consistent comparator. -/
def sortBy {α : Type} (compare : α → α → ℚ) (list : List α) : List α :=
  list.insertionSort fun a b => compare a b ≤ 0

theorem sortBy_perm {α : Type} (compare : α → α → ℚ) (list : List α) :
    (sortBy compare list).Perm list :=
  List.perm_insertionSort _ list

section
variable (R : JsRuntime)

def compareDisplayName (a b : String) : ℚ :=
  let byFirst := R.compareFirst a b
  if byFirst ≠ 0 then byFirst else R.compareBase a b

def lastAccessedMs (vault : VaultListItem) : ℚ := (R.dateParse vault.lastAccessedAt).getD 0

def compareName (a b : VaultListItem) : ℚ := compareDisplayName R a.displayName b.displayName

/-- `(a.order ?? 999) - (b.order ?? 999)`, then the name. -/
def compareOrder (a b : VaultListItem) : ℚ :=
  let orderDiff := a.order.getD 999 - b.order.getD 999
  if orderDiff ≠ 0 then orderDiff else R.compareBase a.displayName b.displayName

def compareState (a b : VaultListItem) : ℚ :=
  let rankA := STATE_RANK (resolveVaultDisplayStatus a)
  let rankB := STATE_RANK (resolveVaultDisplayStatus b)
  if rankA ≠ rankB then rankA - rankB else compareName R a b

def compareLastAccessed (a b : VaultListItem) : ℚ :=
  let diff := lastAccessedMs R a - lastAccessedMs R b
  if diff ≠ 0 then diff else compareName R a b

end

/-! ## Sorts -/

inductive VaultListSortMode
  | order
  | name
  | state
  | lastAccessed
  | groups
  deriving DecidableEq, Repr

/-- As for the whole list, without `groups`. -/
inductive GroupedVaultSortMode
  | order
  | name
  | state
  | lastAccessed
  deriving DecidableEq, Repr

inductive VaultListSortDirection
  | asc
  | desc
  deriving DecidableEq, Repr

structure VaultListSort where
  mode : VaultListSortMode
  direction : VaultListSortDirection
  deriving DecidableEq, Repr

structure GroupedVaultSort where
  mode : GroupedVaultSortMode
  direction : VaultListSortDirection
  deriving DecidableEq, Repr

def DEFAULT_GROUPED_VAULT_SORT : GroupedVaultSort := ⟨.order, .asc⟩

def GroupedVaultSortMode.toListMode : GroupedVaultSortMode → VaultListSortMode
  | .order => .order
  | .name => .name
  | .state => .state
  | .lastAccessed => .lastAccessed

/-- `direction === "desc" ? reverse : as is`. -/
def inDirection {α : Type} (direction : VaultListSortDirection) (ascending : List α) : List α :=
  match direction with
  | .desc => ascending.reverse
  | .asc => ascending

theorem inDirection_perm {α : Type} (direction : VaultListSortDirection) (list : List α) :
    (inDirection direction list).Perm list := by
  cases direction with
  | asc => exact .refl _
  | desc => exact list.reverse_perm

section
variable (R : JsRuntime)

def sortVaultsByOrder (vaults : List VaultListItem) : List VaultListItem :=
  sortBy (compareOrder R) vaults

def sortAscending (vaults : List VaultListItem) : VaultListSortMode → List VaultListItem
  | .order => sortVaultsByOrder R vaults
  -- A flat list has no group rows.
  | .name | .groups => sortBy (compareName R) vaults
  | .state => sortBy (compareState R) vaults
  | .lastAccessed => sortBy (compareLastAccessed R) vaults

def applyVaultListSort (vaults : List VaultListItem) (sort : VaultListSort) :
    List VaultListItem :=
  inDirection sort.direction (sortAscending R vaults sort.mode)

/-- Sort vaults inside a group; `order` is the order of the group's ids. -/
def applyGroupedVaultSort (vaultsInGroupOrder : List VaultListItem) (sort : GroupedVaultSort) :
    List VaultListItem :=
  if sort.mode = .order then inDirection sort.direction vaultsInGroupOrder
  else applyVaultListSort R vaultsInGroupOrder ⟨sort.mode.toListMode, sort.direction⟩

theorem applyVaultListSort_perm (vaults : List VaultListItem) (sort : VaultListSort) :
    (applyVaultListSort R vaults sort).Perm vaults := by
  have hascending : (sortAscending R vaults sort.mode).Perm vaults := by
    cases sort.mode <;> exact sortBy_perm _ _
  exact (inDirection_perm _ _).trans hascending

/-- No sort loses a vault or shows one twice. -/
theorem applyGroupedVaultSort_perm (vaults : List VaultListItem) (sort : GroupedVaultSort) :
    (applyGroupedVaultSort R vaults sort).Perm vaults := by
  rw [applyGroupedVaultSort]
  split
  · exact inDirection_perm _ _
  · exact applyVaultListSort_perm R _ _

end

end Upriv.Shared.VaultList
