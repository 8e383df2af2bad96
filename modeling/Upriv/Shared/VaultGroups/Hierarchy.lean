import Upriv.Shared.VaultList.Sort
import Upriv.Support.Keyed
import Mathlib.Data.List.Basic
import Mathlib.Data.List.Perm.Basic

/-!
# The rows of the vault list

`domain/vault-groups/hierarchy.ts` of the shared TypeScript code.  Two nested
loops hand each vault to the first group that lists it and remember its id in
`claimed`; what remains unclaimed becomes a row of its own.
-/

namespace Upriv.Shared.VaultList

structure VaultGroup where
  id : String
  displayName : String
  order : ℚ
  hidden : Bool
  groupedVaults : List String
  groupedVaultSort : Option GroupedVaultSortMode
  groupedVaultSortDirection : Option VaultListSortDirection
  deriving DecidableEq, Repr

inductive VaultListRootRow
  | vault (vault : VaultListItem)
  | group (group : VaultGroup) (groupedVaults : List VaultListItem) (hiddenVaultCount : ℕ)
  deriving DecidableEq, Repr

/-! ## Comparing rows -/

section
variable (R : JsRuntime)

def groupLastAccessedMs (groupedVaults : List VaultListItem) : ℚ :=
  ((groupedVaults.map (lastAccessedMs R)).max?).getD 0

def groupStateRank (groupedVaults : List VaultListItem) : ℚ :=
  ((groupedVaults.map fun m => STATE_RANK (resolveVaultDisplayStatus m)).min?).getD
    (STATE_RANK .closed)

def rootName : VaultListRootRow → String
  | .vault vault => vault.displayName
  | .group group _ _ => group.displayName

/-- The keys of the modes that sort by a number. -/
inductive NumericMode
  | order
  | lastAccessed
  | state

def rootSortKey (row : VaultListRootRow) : NumericMode → ℚ
  | .order =>
      match row with
      | .vault vault => vault.order.getD 999
      | .group group _ _ => group.order
  | .lastAccessed =>
      match row with
      | .vault vault => lastAccessedMs R vault
      | .group _ groupedVaults _ => groupLastAccessedMs R groupedVaults
  | .state =>
      match row with
      | .vault vault => STATE_RANK (resolveVaultDisplayStatus vault)
      | .group _ groupedVaults _ => groupStateRank groupedVaults

def isGroupRow : VaultListRootRow → Bool
  | .vault _ => false
  | .group _ _ _ => true

def compareByKey (a b : VaultListRootRow) (mode : NumericMode) : ℚ :=
  let diff := rootSortKey R a mode - rootSortKey R b mode
  if diff ≠ 0 then diff else compareDisplayName R (rootName a) (rootName b)

def compareRootRows (a b : VaultListRootRow) : VaultListSortMode → ℚ
  | .groups =>
      if isGroupRow a ≠ isGroupRow b then if isGroupRow a then -1 else 1
      else compareDisplayName R (rootName a) (rootName b)
  | .name => compareDisplayName R (rootName a) (rootName b)
  | .order => compareByKey R a b .order
  | .state => compareByKey R a b .state
  | .lastAccessed => compareByKey R a b .lastAccessed

end

def groupedVaultSortOf (group : VaultGroup) : GroupedVaultSort where
  mode := group.groupedVaultSort.getD DEFAULT_GROUPED_VAULT_SORT.mode
  direction := group.groupedVaultSortDirection.getD DEFAULT_GROUPED_VAULT_SORT.direction

/-! ## Building the rows -/

structure VaultListHierarchyOptions where
  showHiddenVaults : Option Bool := none

/-- `options?.showHiddenVaults ?? false`. -/
def showHiddenOf (options : Option VaultListHierarchyOptions) : Bool :=
  (options.bind (·.showHiddenVaults)).getD false

def isHidden (vault : VaultListItem) : Bool := vault.hidden.getD false

/-- `new Map(vaults.map((v) => [v.id, v]))`: the last vault with the id. -/
def byId (vaults : List VaultListItem) (id : String) : Option VaultListItem :=
  vaults.reverse.find? (·.id = id)

/-- The variables of the loop over the ids of one group. -/
structure GroupLoop where
  claimed : List String
  inGroupOrder : List VaultListItem
  hiddenVaultCount : ℕ

def claimVault (vaults : List VaultListItem) (showHidden : Bool) (loop : GroupLoop)
    (id : String) : GroupLoop :=
  if id ∈ loop.claimed then loop
  else
    match byId vaults id with
    | none => loop
    | some vault =>
        let claimed := loop.claimed ++ [id]
        if isHidden vault && !showHidden then
          { loop with claimed := claimed, hiddenVaultCount := loop.hiddenVaultCount + 1 }
        else { loop with claimed := claimed, inGroupOrder := loop.inGroupOrder ++ [vault] }

def claimVaults (vaults : List VaultListItem) (showHidden : Bool) (loop : GroupLoop)
    (groupedVaults : List String) : GroupLoop :=
  groupedVaults.foldl (claimVault vaults showHidden) loop

/-- The variables of the loop over the groups. -/
structure RowsLoop where
  claimed : List String
  groupRows : List VaultListRootRow

def pushGroup (R : JsRuntime) (vaults : List VaultListItem) (showHidden : Bool)
    (loop : RowsLoop) (group : VaultGroup) : RowsLoop :=
  let inner := claimVaults vaults showHidden ⟨loop.claimed, [], 0⟩ group.groupedVaults
  if group.hidden && !showHidden then { loop with claimed := inner.claimed }
  else
    { claimed := inner.claimed
      groupRows := loop.groupRows ++
        [.group group (applyGroupedVaultSort R inner.inGroupOrder (groupedVaultSortOf group))
          inner.hiddenVaultCount] }

/-- Root rows: ungrouped vaults and groups. -/
def applyVaultListHierarchySort (R : JsRuntime) (vaults : List VaultListItem)
    (groups : List VaultGroup) (sort : VaultListSort)
    (options : Option VaultListHierarchyOptions) : List VaultListRootRow :=
  let showHidden := showHiddenOf options
  let loop := groups.foldl (pushGroup R vaults showHidden) ⟨[], []⟩
  let ungrouped := vaults.filter fun v => v.id ∉ loop.claimed && (showHidden || !isHidden v)
  let sortedUngrouped := applyVaultListSort R ungrouped ⟨.order, .asc⟩
  let root := sortedUngrouped.map .vault ++ loop.groupRows
  inDirection sort.direction (sortBy (fun a b => compareRootRows R a b sort.mode) root)

/-! ## Who owns a vault -/

/-- The position of the first group that lists the vault. -/
def firstGroup (groups : List VaultGroup) (vaultId : String) : Option ℕ :=
  groups.findIdx? (vaultId ∈ ·.groupedVaults)

/-- The first group that lists the vault is hidden. -/
def claimedByHidden (groups : List VaultGroup) (vaultId : String) : Bool :=
  (groups.find? (vaultId ∈ ·.groupedVaults)).any (·.hidden)

/-- The vaults of a row. -/
def VaultListRootRow.vaults : VaultListRootRow → List VaultListItem
  | .vault v => [v]
  | .group _ groupedVaults _ => groupedVaults

def VaultListRootRow.group? : VaultListRootRow → Option VaultGroup
  | .vault _ => none
  | .group g _ _ => some g

/-- The row of the group at position `p.2` shows the vaults for which this
group is the first. -/
def IsRowOf (vaults : List VaultListItem) (groups : List VaultGroup) (showHidden : Bool)
    (p : VaultGroup × ℕ) (row : VaultListRootRow) : Prop :=
  ∃ members hiddenVaultCount, row = .group p.1 members hiddenVaultCount ∧
    members.Perm (vaults.filter fun v =>
      firstGroup groups v.id = some p.2 && (showHidden || !isHidden v))

/-- The rows hold every vault that may be seen once, at its place, and every
group that may be seen once. -/
structure Partitions (vaults : List VaultListItem) (groups : List VaultGroup)
    (showHidden : Bool) (rows : List VaultListRootRow) : Prop where
  once : ((rows.flatMap (·.vaults)).map (·.id)).Nodup
  mem : ∀ v, v ∈ rows.flatMap (·.vaults) ↔
    v ∈ vaults ∧ (showHidden = true ∨ isHidden v = false ∧ claimedByHidden groups v.id = false)
  groupsOnce : (rows.filterMap (·.group?)).Perm
    (groups.filter fun group => showHidden || !group.hidden)
  placed : ∃ (roots : List VaultListItem) (groupRows : List VaultListRootRow),
    rows.Perm (roots.map .vault ++ groupRows) ∧
    roots.Perm (vaults.filter fun v =>
      firstGroup groups v.id = none && (showHidden || !isHidden v)) ∧
    List.Forall₂ (IsRowOf vaults groups showHidden)
      (groups.zipIdx.filter fun p => showHidden || !p.1.hidden) groupRows

/-! ## The loop over the ids of a group -/

section
variable {vaults : List VaultListItem} {showHidden : Bool} {loop : GroupLoop} {id : String}

theorem byId_eq_some (hids : (vaults.map (·.id)).Nodup) {v : VaultListItem} :
    byId vaults id = some v ↔ v ∈ vaults ∧ v.id = id :=
  find?_key_reverse_eq_some hids

theorem byId_eq_none : byId vaults id = none ↔ ∀ v ∈ vaults, v.id ≠ id := by
  simp [byId]

/-- What the loop over `ids` does: it claims the known ids among them, and
appends the vaults of the new ones that may be seen. -/
structure Claims (vaults : List VaultListItem) (showHidden : Bool) (ids : List String)
    (loop loop' : GroupLoop) : Prop where
  claimed : ∀ id, id ∈ loop'.claimed ↔
    id ∈ loop.claimed ∨ id ∈ ids ∧ ∃ v ∈ vaults, v.id = id
  added : ∃ added, loop'.inGroupOrder = loop.inGroupOrder ++ added ∧
    (added.map (·.id)).Nodup ∧
    ∀ v, v ∈ added ↔ v ∈ vaults ∧ v.id ∉ loop.claimed ∧ v.id ∈ ids ∧
      (showHidden = true ∨ isHidden v = false)

theorem claims_nil (loop : GroupLoop) : Claims vaults showHidden [] loop loop where
  claimed id := by simp
  added := ⟨[], by simp⟩

/-- One round of the loop. -/
theorem claims_claimVault (hids : (vaults.map (·.id)).Nodup) (loop : GroupLoop) (id : String) :
    Claims vaults showHidden [id] loop (claimVault vaults showHidden loop id) := by
  rw [claimVault]
  split
  · rename_i hclaimed
    refine ⟨fun other => ?_, [], by simp, by simp, fun v => ?_⟩
    · rw [List.mem_singleton, or_iff_left_of_imp]
      rintro ⟨rfl, _⟩
      exact hclaimed
    · rw [List.mem_singleton]
      constructor
      · exact fun h => absurd h List.not_mem_nil
      · rintro ⟨_, hnew, rfl, _⟩
        exact absurd hclaimed hnew
  · rename_i hnew
    split
    · rename_i hunknown
      rw [byId_eq_none] at hunknown
      refine ⟨fun other => ?_, [], by simp, by simp, fun v => ?_⟩
      · rw [List.mem_singleton, or_iff_left_of_imp]
        rintro ⟨rfl, v, hv, hid⟩
        exact absurd hid (hunknown v hv)
      · rw [List.mem_singleton]
        constructor
        · exact fun h => absurd h List.not_mem_nil
        · rintro ⟨hv, _, hid, _⟩
          exact absurd hid (hunknown v hv)
    · rename_i vault hvault
      obtain ⟨hmem, rfl⟩ := (byId_eq_some hids).mp hvault
      have hclaims : ∀ other, other ∈ loop.claimed ++ [vault.id] ↔
          other ∈ loop.claimed ∨ other ∈ [vault.id] ∧ ∃ v ∈ vaults, v.id = other := by
        intro other
        rw [List.mem_append, List.mem_singleton]
        refine or_congr_right ⟨?_, fun h => h.1⟩
        rintro rfl
        exact ⟨rfl, vault, hmem, rfl⟩
      have hsame : ∀ v ∈ vaults, v.id = vault.id → v = vault :=
        fun v hv hid => List.inj_on_of_nodup_map hids hv hmem hid
      dsimp only
      split
      · rename_i hhidden
        rw [Bool.and_eq_true, Bool.not_eq_true'] at hhidden
        refine ⟨hclaims, [], by simp, by simp, fun v => ?_⟩
        constructor
        · exact fun h => absurd h List.not_mem_nil
        · rintro ⟨hv, _, hid, hshown⟩
          rw [hsame v hv (List.mem_singleton.mp hid), hhidden.1, hhidden.2] at hshown
          simp at hshown
      · rename_i hshown
        refine ⟨hclaims, [vault], rfl, List.nodup_singleton _, fun v => ?_⟩
        rw [List.mem_singleton, List.mem_singleton]
        constructor
        · rintro rfl
          refine ⟨hmem, hnew, rfl, ?_⟩
          cases showHidden <;> simp_all
        · rintro ⟨hv, _, hid, _⟩
          exact hsame v hv hid

theorem Claims.trans {ids ids' : List String} {loop' loop'' : GroupLoop}
    (h : Claims vaults showHidden ids loop loop')
    (h' : Claims vaults showHidden ids' loop' loop'') :
    Claims vaults showHidden (ids ++ ids') loop loop'' := by
  obtain ⟨added, hadded, hnodup, hmem⟩ := h.added
  obtain ⟨added', hadded', hnodup', hmem'⟩ := h'.added
  refine ⟨fun id => ?_, added ++ added', ?_, ?_, fun v => ?_⟩
  · rw [h'.claimed, h.claimed, List.mem_append, or_and_right, or_assoc]
  · rw [hadded', hadded, List.append_assoc]
  · rw [List.map_append, List.nodup_append]
    refine ⟨hnodup, hnodup', ?_⟩
    rintro id hid _ hid' rfl
    obtain ⟨v, hv, rfl⟩ := List.mem_map.mp hid
    obtain ⟨v', hv', heq⟩ := List.mem_map.mp hid'
    -- What the first part has added is claimed.
    obtain ⟨hvault, _, hlisted, _⟩ := (hmem v).mp hv
    refine ((hmem' v').mp hv').2.1 ?_
    rw [heq]
    exact (h.claimed v.id).mpr (.inr ⟨hlisted, v, hvault, rfl⟩)
  · rw [List.mem_append, List.mem_append, hmem, hmem', h.claimed]
    by_cases hclaimed : v.id ∈ loop.claimed
    · simp [hclaimed]
    · by_cases hvault : v ∈ vaults
      · have hknown : ∃ u ∈ vaults, u.id = v.id := ⟨v, hvault, rfl⟩
        by_cases hlisted : v.id ∈ ids
        · simp [hclaimed, hvault, hlisted, hknown]
        · simp [hclaimed, hvault, hlisted]
      · simp [hvault]

theorem claims_claimVaults (hids : (vaults.map (·.id)).Nodup) (ids : List String)
    (loop : GroupLoop) :
    Claims vaults showHidden ids loop (claimVaults vaults showHidden loop ids) := by
  induction ids generalizing loop with
  | nil => exact claims_nil loop
  | cons id ids ih => exact (claims_claimVault hids loop id).trans (ih _)

end

/-! ## The loop over the groups -/

section
variable {R : JsRuntime} {vaults : List VaultListItem} {groups pre post : List VaultGroup}
  {group : VaultGroup} {showHidden : Bool} {loop : RowsLoop} {id : String}

theorem firstGroup_eq_none :
    firstGroup groups id = none ↔ ∀ g ∈ groups, id ∉ g.groupedVaults := by
  simp [firstGroup]

/-- The group after the prefix `pre` is the first for an id when it lists the
id and no group of the prefix does. -/
theorem firstGroup_eq_length :
    firstGroup (pre ++ group :: post) id = some pre.length ↔
      (∀ g ∈ pre, id ∉ g.groupedVaults) ∧ id ∈ group.groupedVaults := by
  rw [firstGroup, List.findIdx?_append, ← firstGroup]
  cases hpre : firstGroup pre id with
  | some k =>
      have hlt : k < pre.length := (List.findIdx?_eq_some_iff_getElem.mp hpre).1
      have hlisted : ¬ ∀ g ∈ pre, id ∉ g.groupedVaults := by
        rw [← firstGroup_eq_none, hpre]
        exact Option.some_ne_none k
      simp [hlisted, hlt.ne]
  | none =>
      rw [firstGroup_eq_none] at hpre
      rw [Option.none_or, List.findIdx?_cons]
      by_cases hlisted : id ∈ group.groupedVaults
      · simp [hlisted]
        exact hpre
      · simp [hlisted]
        exact fun k _ => by omega

/-- A hidden group claims exactly the vaults for which it is the first. -/
theorem claimedByHidden_eq_true :
    claimedByHidden groups id = true ↔
      ∃ k g, groups[k]? = some g ∧ firstGroup groups id = some k ∧ g.hidden = true := by
  rw [claimedByHidden, Option.any_eq_true]
  constructor
  · rintro ⟨g, hfind, hhidden⟩
    obtain ⟨hlisted, k, hk, rfl, hfirst⟩ := List.find?_eq_some_iff_getElem.mp hfind
    refine ⟨k, groups[k], List.getElem?_eq_getElem hk, ?_, hhidden⟩
    rw [firstGroup, List.findIdx?_eq_some_iff_getElem]
    exact ⟨hk, hlisted, fun j hj => by simpa using hfirst j hj⟩
  · rintro ⟨k, g, hget, hfirst, hhidden⟩
    obtain ⟨hk, hlisted, hbefore⟩ := List.findIdx?_eq_some_iff_getElem.mp hfirst
    obtain rfl : groups[k] = g := by
      rw [List.getElem?_eq_getElem hk] at hget
      exact Option.some.inj hget
    refine ⟨groups[k], ?_, hhidden⟩
    rw [List.find?_eq_some_iff_getElem]
    exact ⟨hlisted, k, hk, rfl, fun j hj => by simpa using hbefore j hj⟩

/-- The state of the loop after the groups of `pre`. -/
structure RowsInv (vaults : List VaultListItem) (groups : List VaultGroup) (showHidden : Bool)
    (pre : List VaultGroup) (loop : RowsLoop) : Prop where
  claimed : ∀ id, id ∈ loop.claimed ↔
    (∃ g ∈ pre, id ∈ g.groupedVaults) ∧ ∃ v ∈ vaults, v.id = id
  rows : List.Forall₂ (IsRowOf vaults groups showHidden)
    (pre.zipIdx.filter fun p => showHidden || !p.1.hidden) loop.groupRows
  nodup : ((loop.groupRows.flatMap (·.vaults)).map (·.id)).Nodup
  owned : ∀ v ∈ loop.groupRows.flatMap (·.vaults), v.id ∈ loop.claimed

theorem rowsInv_nil (vaults : List VaultListItem) (groups : List VaultGroup)
    (showHidden : Bool) : RowsInv vaults groups showHidden [] ⟨[], []⟩ where
  claimed id := by simp
  rows := .nil
  nodup := List.nodup_nil
  owned v hv := absurd hv List.not_mem_nil

/-- One more group. -/
theorem RowsInv.pushGroup (hids : (vaults.map (·.id)).Nodup)
    (h : RowsInv vaults (pre ++ group :: post) showHidden pre loop) :
    RowsInv vaults (pre ++ group :: post) showHidden (pre ++ [group])
      (pushGroup R vaults showHidden loop group) := by
  have hclaims : Claims vaults showHidden group.groupedVaults ⟨loop.claimed, [], 0⟩
      (claimVaults vaults showHidden ⟨loop.claimed, [], 0⟩ group.groupedVaults) :=
    claims_claimVaults hids group.groupedVaults ⟨loop.claimed, [], 0⟩
  rw [VaultList.pushGroup]
  generalize claimVaults vaults showHidden ⟨loop.claimed, [], 0⟩ group.groupedVaults = inner
    at hclaims ⊢
  obtain ⟨added, hadded, hnodup, hmem⟩ := hclaims.added
  rw [List.nil_append] at hadded
  dsimp only at hmem
  have hclaimed : ∀ id, id ∈ inner.claimed ↔
      (∃ g ∈ pre ++ [group], id ∈ g.groupedVaults) ∧ ∃ v ∈ vaults, v.id = id := by
    intro id
    rw [hclaims.claimed, h.claimed, ← or_and_right]
    refine and_congr_left' ?_
    simp
  have hold : ∀ v ∈ loop.groupRows.flatMap (·.vaults), v.id ∈ inner.claimed :=
    fun v hv => (hclaims.claimed v.id).mpr (.inl (h.owned v hv))
  have hzip : (pre ++ [group]).zipIdx = pre.zipIdx ++ [(group, pre.length)] := by
    rw [List.zipIdx_append]
    simp
  split
  · rename_i hhidden
    refine ⟨hclaimed, ?_, h.nodup, hold⟩
    have hskip : (showHidden || !group.hidden) = false := by
      revert hhidden
      cases showHidden <;> simp
    rw [hzip, List.filter_append, List.filter_singleton, hskip]
    simpa using h.rows
  · rename_i hvisible
    have hshow : (showHidden || !group.hidden) = true := by
      revert hvisible
      cases showHidden <;> simp
    set members := applyGroupedVaultSort R inner.inGroupOrder (groupedVaultSortOf group)
    have hmembers : members.Perm added := hadded ▸ applyGroupedVaultSort_perm R _ _
    have hflat : (loop.groupRows ++
        [VaultListRootRow.group group members inner.hiddenVaultCount]).flatMap (·.vaults) =
        loop.groupRows.flatMap (·.vaults) ++ members := by
      simp [VaultListRootRow.vaults]
    refine ⟨hclaimed, ?_, ?_, ?_⟩
    · rw [hzip, List.filter_append, List.filter_singleton, hshow]
      refine List.rel_append h.rows (.cons ⟨members, _, rfl, hmembers.trans ?_⟩ .nil)
      rw [List.perm_ext_iff_of_nodup (hnodup.of_map _) ((hids.of_map _).filter _)]
      intro v
      rw [hmem, List.mem_filter, Bool.and_eq_true, decide_eq_true_iff, firstGroup_eq_length,
        h.claimed]
      constructor
      · rintro ⟨hvault, hnew, hlisted, hshown⟩
        have hfirst : ∀ g ∈ pre, v.id ∉ g.groupedVaults :=
          fun g hg hgid => hnew ⟨⟨g, hg, hgid⟩, v, hvault, rfl⟩
        exact ⟨hvault, ⟨hfirst, hlisted⟩, by simpa using hshown⟩
      · rintro ⟨hvault, ⟨hfirst, hlisted⟩, hshown⟩
        exact ⟨hvault, fun ⟨⟨g, hg, hgid⟩, _⟩ => hfirst g hg hgid, hlisted,
          by simpa using hshown⟩
    · rw [hflat, List.map_append, List.nodup_append]
      refine ⟨h.nodup, (hmembers.map _).nodup_iff.mpr hnodup, ?_⟩
      rintro id hid _ hid' rfl
      obtain ⟨v, hv, rfl⟩ := List.mem_map.mp hid
      obtain ⟨v', hv', heq⟩ := List.mem_map.mp hid'
      refine ((hmem v').mp (hmembers.mem_iff.mp hv')).2.1 ?_
      rw [heq]
      exact h.owned v hv
    · intro v hv
      rw [hflat, List.mem_append] at hv
      rcases hv with hv | hv
      · exact hold v hv
      · obtain ⟨hvault, _, hlisted, _⟩ := (hmem v).mp (hmembers.mem_iff.mp hv)
        exact (hclaims.claimed v.id).mpr (.inr ⟨hlisted, v, hvault, rfl⟩)

theorem rowsInv_foldl (hids : (vaults.map (·.id)).Nodup)
    (h : RowsInv vaults (pre ++ post) showHidden pre loop) :
    RowsInv vaults (pre ++ post) showHidden (pre ++ post)
      (post.foldl (VaultList.pushGroup R vaults showHidden) loop) := by
  induction post generalizing pre loop with
  | nil => simpa using h
  | cons group post ih =>
      have hstep : RowsInv vaults (pre ++ group :: post) showHidden (pre ++ [group])
          (VaultList.pushGroup R vaults showHidden loop group) := h.pushGroup hids
      have hassoc : pre ++ group :: post = (pre ++ [group]) ++ post := by simp
      rw [hassoc] at hstep ⊢
      exact ih hstep

theorem filterMap_group?_of_forall₂ {ps : List (VaultGroup × ℕ)} {rows : List VaultListRootRow}
    (h : List.Forall₂ (IsRowOf vaults groups showHidden) ps rows) :
    rows.filterMap (·.group?) = ps.map Prod.fst := by
  induction h with
  | nil => rfl
  | cons hrow _ ih =>
      obtain ⟨members, hiddenVaultCount, rfl, _⟩ := hrow
      rw [List.filterMap_cons, List.map_cons, ← ih]
      rfl

/-- The vaults in the rows of groups. -/
theorem mem_flatMap_of_forall₂ {ps : List (VaultGroup × ℕ)} {rows : List VaultListRootRow}
    (h : List.Forall₂ (IsRowOf vaults groups showHidden) ps rows) (v : VaultListItem) :
    v ∈ rows.flatMap (·.vaults) ↔ v ∈ vaults ∧ (showHidden = true ∨ isHidden v = false) ∧
      ∃ p ∈ ps, firstGroup groups v.id = some p.2 := by
  induction h with
  | nil => simp
  | cons hrow _ ih =>
      obtain ⟨members, hiddenVaultCount, rfl, hmembers⟩ := hrow
      rw [List.flatMap_cons, List.mem_append, ih, List.exists_mem_cons_iff]
      simp only [VaultListRootRow.vaults, hmembers.mem_iff, List.mem_filter, Bool.and_eq_true,
        decide_eq_true_iff, Bool.or_eq_true, Bool.not_eq_true']
      rw [← and_or_left, and_comm (a := firstGroup groups v.id = some _), ← and_or_left]

/-- A vault is in the row of its first group, unless that group is left out. -/
theorem exists_shown_group_iff :
    (∃ p ∈ groups.zipIdx.filter fun p => showHidden || !p.1.hidden,
        firstGroup groups id = some p.2) ↔
      firstGroup groups id ≠ none ∧ (showHidden = true ∨ claimedByHidden groups id = false) := by
  constructor
  · rintro ⟨⟨g, k⟩, hp, hfirst⟩
    rw [List.mem_filter, List.mem_zipIdx_iff_getElem?] at hp
    obtain ⟨hget, hshown⟩ := hp
    refine ⟨hfirst ▸ Option.some_ne_none k, ?_⟩
    by_contra hboth
    rw [not_or, Bool.not_eq_false, claimedByHidden_eq_true] at hboth
    obtain ⟨hshow, k', g', hget', hfirst', hhidden⟩ := hboth
    obtain rfl : k = k' := Option.some.inj (hfirst.symm.trans hfirst')
    obtain rfl : g = g' := Option.some.inj (hget.symm.trans hget')
    simp [hshow, hhidden] at hshown
  · rintro ⟨hfirst, hshown⟩
    obtain ⟨k, hk⟩ := Option.ne_none_iff_exists'.mp hfirst
    have hlt : k < groups.length := (List.findIdx?_eq_some_iff_getElem.mp hk).1
    refine ⟨(groups[k], k), ?_, hk⟩
    rw [List.mem_filter, List.mem_zipIdx_iff_getElem?]
    refine ⟨List.getElem?_eq_getElem hlt, ?_⟩
    rcases hshown with hshow | hvisible
    · simp [hshow]
    · have hgroup : ¬ groups[k].hidden = true := fun hhidden =>
        Bool.false_ne_true (hvisible.symm.trans (claimedByHidden_eq_true.mpr
          ⟨k, groups[k], List.getElem?_eq_getElem hlt, hk, hhidden⟩))
      simp [hgroup]

end

/-! ## Rows of groups that share no vault -/

/-- The members of a group that may be seen, in the order of their ids. -/
def shownMembers (vaults : List VaultListItem) (showHidden : Bool) (ids : List String) :
    List VaultListItem :=
  ids.filterMap fun id => (byId vaults id).filter fun v => showHidden || !isHidden v

section
variable {R : JsRuntime} {vaults : List VaultListItem} {groups : List VaultGroup}
  {group : VaultGroup} {showHidden : Bool} {ids : List String}

theorem claimVaults_disjoint {loop : GroupLoop} (hnodup : ids.Nodup)
    (hnew : ∀ id ∈ ids, id ∉ loop.claimed) :
    (claimVaults vaults showHidden loop ids).inGroupOrder =
        loop.inGroupOrder ++ shownMembers vaults showHidden ids ∧
      (claimVaults vaults showHidden loop ids).claimed ⊆ loop.claimed ++ ids := by
  induction ids generalizing loop with
  | nil =>
      rw [claimVaults, List.foldl_nil, shownMembers, List.filterMap_nil, List.append_nil]
      exact ⟨rfl, List.subset_append_left _ _⟩
  | cons id ids ih =>
      obtain ⟨hid, hnodup⟩ := List.nodup_cons.mp hnodup
      -- One round adds the vault, if it may be seen, and claims no other id.
      have hround : (claimVault vaults showHidden loop id).inGroupOrder =
            loop.inGroupOrder ++ shownMembers vaults showHidden [id] ∧
          (claimVault vaults showHidden loop id).claimed ⊆ loop.claimed ++ [id] := by
        rw [claimVault, if_neg (hnew id List.mem_cons_self), shownMembers]
        cases hvault : byId vaults id with
        | none =>
            simp only [List.filterMap_cons, hvault, Option.filter_none, List.filterMap_nil,
              List.append_nil, true_and]
            exact List.subset_append_left _ _
        | some v =>
            have hlast : shownMembers vaults showHidden [id] =
                if showHidden || !isHidden v then [v] else [] := by
              rw [shownMembers, List.filterMap_cons, hvault, Option.filter_some]
              cases showHidden || !isHidden v <;> rfl
            rw [shownMembers] at hlast
            rw [hlast]
            dsimp only
            cases hhidden : isHidden v && !showHidden with
            | true =>
                have hskip : ¬ (showHidden || !isHidden v) = true := by
                  revert hhidden
                  cases showHidden <;> simp
                rw [if_neg hskip, if_pos rfl, List.append_nil]
                exact ⟨rfl, List.Subset.refl _⟩
            | false =>
                have hkeep : (showHidden || !isHidden v) = true := by
                  revert hhidden
                  cases showHidden <;> simp
                rw [if_pos hkeep, if_neg Bool.false_ne_true]
                exact ⟨rfl, List.Subset.refl _⟩
      have hrest : ∀ other ∈ ids, other ∉ (claimVault vaults showHidden loop id).claimed := by
        intro other hother hclaimed
        rcases List.mem_append.mp (hround.2 hclaimed) with hold | hlast
        · exact hnew other (List.mem_cons_of_mem _ hother) hold
        · exact hid (List.mem_singleton.mp hlast ▸ hother)
      obtain ⟨horder, hclaimed⟩ := ih hnodup hrest
      rw [claimVaults, List.foldl_cons, ← claimVaults]
      constructor
      · have hsplit : shownMembers vaults showHidden (id :: ids) =
            shownMembers vaults showHidden [id] ++ shownMembers vaults showHidden ids :=
          List.filterMap_append (l := [id])
        rw [horder, hround.1, hsplit, List.append_assoc]
      · intro other hother
        rcases List.mem_append.mp (hclaimed hother) with hold | hlater
        · rcases List.mem_append.mp (hround.2 hold) with hold | hlast
          · exact List.mem_append_left _ hold
          · exact List.mem_append_right _ (List.mem_singleton.mp hlast ▸ List.mem_cons_self)
        · exact List.mem_append_right _ (List.mem_cons_of_mem _ hlater)

/-- The loop keeps the rows that it has. -/
theorem mem_groupRows_foldl {loop : RowsLoop} {row : VaultListRootRow}
    (h : row ∈ loop.groupRows) :
    row ∈ (groups.foldl (pushGroup R vaults showHidden) loop).groupRows := by
  induction groups generalizing loop with
  | nil => exact h
  | cons first groups ih =>
      rw [List.foldl_cons]
      apply ih
      rw [pushGroup]
      split
      · exact h
      · exact List.mem_append_left _ h

theorem exists_groupRow {loop : RowsLoop}
    (hnodup : (groups.flatMap (·.groupedVaults)).Nodup)
    (hnew : ∀ id ∈ groups.flatMap (·.groupedVaults), id ∉ loop.claimed)
    (hgroup : group ∈ groups) (hshown : (showHidden || !group.hidden) = true) :
    ∃ hiddenVaultCount, VaultListRootRow.group group (applyGroupedVaultSort R
        (shownMembers vaults showHidden group.groupedVaults) (groupedVaultSortOf group))
        hiddenVaultCount ∈
      (groups.foldl (pushGroup R vaults showHidden) loop).groupRows := by
  induction groups generalizing loop with
  | nil => exact absurd hgroup List.not_mem_nil
  | cons first groups ih =>
      rw [List.flatMap_cons, List.nodup_append] at hnodup
      obtain ⟨hfirst, hrest, hdisjoint⟩ := hnodup
      rw [List.flatMap_cons] at hnew
      obtain ⟨horder, hclaimed⟩ := @claimVaults_disjoint vaults showHidden _
        ⟨loop.claimed, [], 0⟩ hfirst fun id hid => hnew id (List.mem_append_left _ hid)
      rw [List.nil_append] at horder
      rw [List.foldl_cons]
      rcases List.mem_cons.mp hgroup with rfl | hgroup
      · refine ⟨(claimVaults vaults showHidden ⟨loop.claimed, [], 0⟩
          group.groupedVaults).hiddenVaultCount, mem_groupRows_foldl ?_⟩
        have hvisible : ¬ (group.hidden && !showHidden) = true := by
          revert hshown
          cases showHidden <;> simp
        rw [pushGroup, horder, if_neg hvisible]
        exact List.mem_append_right _ List.mem_cons_self
      · refine ih hrest (fun id hid hold => ?_) hgroup
        have hinner : id ∈ (claimVaults vaults showHidden ⟨loop.claimed, [], 0⟩
            first.groupedVaults).claimed := by
          rw [pushGroup] at hold
          split at hold <;> exact hold
        rcases List.mem_append.mp (hclaimed hinner) with hclaimed | hlisted
        · exact hnew id (List.mem_append_right _ hid) hclaimed
        · exact hdisjoint id hlisted id hid rfl

/-- The row of a group, when no other group lists its members. -/
theorem exists_row_of_nodup (R : JsRuntime) (vaults : List VaultListItem) (sort : VaultListSort)
    {options : Option VaultListHierarchyOptions}
    (hnodup : (groups.flatMap (·.groupedVaults)).Nodup) (hgroup : group ∈ groups)
    (hshown : (showHiddenOf options || !group.hidden) = true) :
    ∃ hiddenVaultCount, VaultListRootRow.group group (applyGroupedVaultSort R
        (shownMembers vaults (showHiddenOf options) group.groupedVaults)
        (groupedVaultSortOf group)) hiddenVaultCount ∈
      applyVaultListHierarchySort R vaults groups sort options := by
  have hnew : ∀ id ∈ groups.flatMap (·.groupedVaults), id ∉ (RowsLoop.mk [] []).claimed :=
    fun id _ => List.not_mem_nil
  obtain ⟨hiddenVaultCount, hrow⟩ := @exists_groupRow R vaults _ _ _ ⟨[], []⟩ hnodup hnew
    hgroup hshown
  refine ⟨hiddenVaultCount, ?_⟩
  rw [applyVaultListHierarchySort, (inDirection_perm _ _).mem_iff, (sortBy_perm _ _).mem_iff]
  exact List.mem_append_right _ hrow

end

/-! ## The partition -/

/-- The rows partition the vaults, whatever the groups list. -/
theorem applyVaultListHierarchySort_partitions (R : JsRuntime) {vaults : List VaultListItem}
    (groups : List VaultGroup) (sort : VaultListSort)
    (options : Option VaultListHierarchyOptions) (hids : (vaults.map (·.id)).Nodup) :
    Partitions vaults groups (showHiddenOf options)
      (applyVaultListHierarchySort R vaults groups sort options) := by
  set showHidden := showHiddenOf options with hshowHidden
  have hinv : RowsInv vaults groups showHidden groups
      (groups.foldl (pushGroup R vaults showHidden) ⟨[], []⟩) :=
    rowsInv_foldl hids (rowsInv_nil vaults ([] ++ groups) showHidden)
  rw [applyVaultListHierarchySort, ← hshowHidden]
  generalize groups.foldl (pushGroup R vaults showHidden) ⟨[], []⟩ = loop at hinv ⊢
  set ungrouped := vaults.filter fun v => v.id ∉ loop.claimed && (showHidden || !isHidden v)
    with hungrouped
  set roots := applyVaultListSort R ungrouped ⟨.order, .asc⟩
  set rows := inDirection sort.direction (sortBy (fun a b => compareRootRows R a b sort.mode)
    (roots.map VaultListRootRow.vault ++ loop.groupRows))
  have hrows : rows.Perm (roots.map VaultListRootRow.vault ++ loop.groupRows) :=
    (inDirection_perm _ _).trans (sortBy_perm _ _)
  have hroots : roots.Perm ungrouped := applyVaultListSort_perm R _ _
  have hmemUngrouped : ∀ v, v ∈ ungrouped ↔ v ∈ vaults ∧ firstGroup groups v.id = none ∧
      (showHidden = true ∨ isHidden v = false) := by
    intro v
    rw [hungrouped, List.mem_filter, Bool.and_eq_true, decide_eq_true_iff, hinv.claimed,
      firstGroup_eq_none, Bool.or_eq_true, Bool.not_eq_true']
    refine and_congr_right fun hv => and_congr_left' ?_
    constructor
    · exact fun h g hg hgid => h ⟨⟨g, hg, hgid⟩, v, hv, rfl⟩
    · rintro h ⟨⟨g, hg, hgid⟩, _⟩
      exact h g hg hgid
  have hflat : (rows.flatMap (·.vaults)).Perm
      (ungrouped ++ loop.groupRows.flatMap (·.vaults)) := by
    refine (hrows.flatMap_right _).trans ?_
    have hmap : (roots.map VaultListRootRow.vault).flatMap (·.vaults) = roots := by
      rw [List.flatMap_map]
      exact List.flatMap_singleton' roots
    rw [List.flatMap_append, hmap]
    exact hroots.append_right _
  constructor
  case once =>
    rw [(hflat.map _).nodup_iff, List.map_append, List.nodup_append]
    refine ⟨hids.sublist (List.filter_sublist.map _), hinv.nodup, ?_⟩
    rintro id hid _ hid' rfl
    obtain ⟨v, hv, rfl⟩ := List.mem_map.mp hid
    obtain ⟨v', hv', heq⟩ := List.mem_map.mp hid'
    have hclaimed : v.id ∈ loop.claimed := heq ▸ hinv.owned v' hv'
    rw [hungrouped, List.mem_filter, Bool.and_eq_true, decide_eq_true_iff] at hv
    exact hv.2.1 hclaimed
  case mem =>
    intro v
    rw [hflat.mem_iff, List.mem_append, hmemUngrouped, mem_flatMap_of_forall₂ hinv.rows,
      exists_shown_group_iff]
    have hunclaimed : firstGroup groups v.id = none → claimedByHidden groups v.id = false := by
      intro hnone
      by_contra hhidden
      rw [Bool.not_eq_false, claimedByHidden_eq_true] at hhidden
      obtain ⟨k, _, _, hfirst, _⟩ := hhidden
      cases hnone.symm.trans hfirst
    rw [← and_or_left]
    apply and_congr_right'
    by_cases hnone : firstGroup groups v.id = none
    · simp [hnone, hunclaimed hnone]
    · simp [hnone, or_and_left]
  case groupsOnce =>
    have hnone : (roots.map VaultListRootRow.vault).filterMap (·.group?) = [] := by
      rw [List.filterMap_map, List.filterMap_eq_nil_iff]
      exact fun v _ => rfl
    refine (hrows.filterMap _).trans ?_
    rw [List.filterMap_append, hnone, List.nil_append, filterMap_group?_of_forall₂ hinv.rows]
    have hfst : (groups.zipIdx.filter fun p => showHidden || !p.1.hidden).map Prod.fst =
        groups.filter fun group => showHidden || !group.hidden := by
      conv_rhs => rw [← List.zipIdx_map_fst 0 groups, List.filter_map]
      rfl
    rw [hfst]
  case placed =>
    refine ⟨roots, loop.groupRows, hrows, hroots.trans ?_, hinv.rows⟩
    rw [List.perm_ext_iff_of_nodup ((hids.of_map _).filter _) ((hids.of_map _).filter _)]
    intro v
    rw [hmemUngrouped, List.mem_filter]
    simp

/-- Two groups list the same vault. -/
theorem applyVaultListHierarchySort_partitions_sample :
    Partitions [⟨"notes", "Notes", none, some 1, none, ""⟩,
        ⟨"taxes", "Taxes", none, some 2, some true, ""⟩]
      [⟨"work", "Work", 1, false, ["notes"], none, none⟩,
        ⟨"dup", "Dup", 2, true, ["notes", "taxes"], none, none⟩] false
      (applyVaultListHierarchySort ⟨fun _ _ => 0, fun _ _ => 0, fun _ => none⟩
        [⟨"notes", "Notes", none, some 1, none, ""⟩,
          ⟨"taxes", "Taxes", none, some 2, some true, ""⟩]
        [⟨"work", "Work", 1, false, ["notes"], none, none⟩,
          ⟨"dup", "Dup", 2, true, ["notes", "taxes"], none, none⟩]
        ⟨.order, .asc⟩ none) :=
  applyVaultListHierarchySort_partitions _ _ _ none (by decide)

end Upriv.Shared.VaultList
