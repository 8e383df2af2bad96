import Upriv.Paths.VaultRoot

/-!
# Vault groups

`config/vault_groups/types.rs` and the normal forms of the values in it: ids
without duplicates, sort modes, and groups in which nothing is left to heal.
-/

namespace Upriv

/-- One vault group: organizational only, not a vault. -/
structure VaultGroup where
  id : String
  displayName : String
  order : Int64 := 0
  collapsed : Bool := false
  hidden : Bool := false
  groupedVaults : List String := []
  groupedVaultSort : String := "order"
  groupedVaultSortDirection : String := "asc"
  deriving DecidableEq, Repr

structure VaultGroupsFile where
  groups : List VaultGroup
  deriving DecidableEq, Repr

/-! ## Lists of ids -/

/-- Insertion into an insertion-ordered set. -/
def pushNew (out : List String) (id : String) : List String :=
  if id ∈ out then out else out ++ [id]

/-- The first occurrence of each id, in order. -/
def firstOccurrences (ids : List String) : List String := ids.foldl pushNew []

def trimVaultIds (ids : List String) : List String :=
  firstOccurrences ((ids.map trim).filter (!·.isEmpty))

def uniqueVaultIds (left right : List String) : List String :=
  firstOccurrences (left ++ right)

theorem mem_pushNew {out : List String} {id other : String} :
    other ∈ pushNew out id ↔ other ∈ out ∨ other = id := by
  unfold pushNew
  split
  · rename_i hmem
    constructor
    · exact .inl
    · rintro (hold | rfl)
      · exact hold
      · exact hmem
  · rw [List.mem_append, List.mem_singleton]

theorem nodup_pushNew {out : List String} (h : out.Nodup) (id : String) :
    (pushNew out id).Nodup := by
  unfold pushNew
  split
  · exact h
  · rename_i hnew
    rw [List.nodup_append]
    refine ⟨h, by simp, ?_⟩
    rintro a ha b hb rfl
    rw [List.mem_singleton] at hb
    exact hnew (hb ▸ ha)

theorem mem_firstOccurrences {ids : List String} {id : String} :
    id ∈ firstOccurrences ids ↔ id ∈ ids := by
  unfold firstOccurrences
  suffices h : ∀ out, id ∈ ids.foldl pushNew out ↔ id ∈ out ∨ id ∈ ids by
    simpa using h []
  induction ids with
  | nil => simp
  | cons first ids ih =>
      intro out
      rw [List.foldl_cons, ih, mem_pushNew, List.mem_cons, or_assoc]

theorem nodup_firstOccurrences (ids : List String) : (firstOccurrences ids).Nodup := by
  unfold firstOccurrences
  suffices h : ∀ out, out.Nodup → (ids.foldl pushNew out).Nodup from
    h [] List.nodup_nil
  induction ids with
  | nil => exact fun out hout => hout
  | cons first ids ih => exact fun out hout => ih _ (nodup_pushNew hout first)

theorem firstOccurrences_of_nodup {ids : List String} (h : ids.Nodup) :
    firstOccurrences ids = ids := by
  unfold firstOccurrences
  suffices hfold : ∀ out, (∀ id ∈ ids, id ∉ out) →
      ids.foldl pushNew out = out ++ ids from hfold [] (by simp)
  induction ids with
  | nil => simp
  | cons first ids ih =>
      intro out hout
      obtain ⟨hfirst, hnodup⟩ := List.nodup_cons.mp h
      have hdisjoint : ∀ id ∈ ids, id ∉ out ++ [first] := by
        intro id hid hmem
        rw [List.mem_append, List.mem_singleton] at hmem
        rcases hmem with hmem | rfl
        · exact hout id (List.mem_cons_of_mem first hid) hmem
        · exact hfirst hid
      rw [List.foldl_cons, pushNew, if_neg (hout first List.mem_cons_self),
        ih hnodup _ hdisjoint, List.append_assoc, List.singleton_append]

/-- A list of ids that trimming leaves alone. -/
structure CleanIds (ids : List String) : Prop where
  trimmed : ∀ id ∈ ids, Trimmed id ∧ id ≠ ""
  nodup : ids.Nodup

theorem CleanIds.filter {ids : List String} (h : CleanIds ids) (p : String → Bool) :
    CleanIds (ids.filter p) where
  trimmed id hid := h.trimmed id (List.mem_of_mem_filter hid)
  nodup := h.nodup.filter p

theorem CleanIds.unique {left right : List String} (hleft : CleanIds left)
    (hright : CleanIds right) : CleanIds (uniqueVaultIds left right) where
  trimmed id hid := by
    rw [uniqueVaultIds, mem_firstOccurrences, List.mem_append] at hid
    exact hid.elim (hleft.trimmed id) (hright.trimmed id)
  nodup := nodup_firstOccurrences _

theorem cleanIds_trimVaultIds (ids : List String) : CleanIds (trimVaultIds ids) where
  trimmed id hid := by
    rw [trimVaultIds, mem_firstOccurrences, List.mem_filter, List.mem_map] at hid
    obtain ⟨⟨raw, _, rfl⟩, hne⟩ := hid
    exact ⟨trimmed_trim raw, by simpa using hne⟩
  nodup := nodup_firstOccurrences _

theorem trimVaultIds_of_clean {ids : List String} (h : CleanIds ids) :
    trimVaultIds ids = ids := by
  have hmap : ids.map trim = ids :=
    calc ids.map trim = ids.map id :=
          List.map_congr_left fun vaultId hid => (h.trimmed vaultId hid).1
      _ = ids := List.map_id ids
  have hfilter : ids.filter (!·.isEmpty) = ids := by
    rw [List.filter_eq_self]
    intro id hid
    simpa using (h.trimmed id hid).2
  rw [trimVaultIds, hmap, hfilter, firstOccurrences_of_nodup h.nodup]

/-! ## Sort modes -/

def groupedVaultSorts : List String := ["order", "name", "state", "last_accessed"]

def groupedVaultSortDirections : List String := ["asc", "desc"]

/-- The trimmed value, if it is a legal one. -/
def normalizeOption (legal : List String) (value : String) : Option String :=
  if trim value ∈ legal then some (trim value) else none

abbrev normalizeGroupedVaultSort (mode : String) : Option String :=
  normalizeOption groupedVaultSorts mode

abbrev normalizeGroupedVaultSortDirection (direction : String) : Option String :=
  normalizeOption groupedVaultSortDirections direction

theorem normalizeOption_eq_some {legal : List String} {value value' : String} :
    normalizeOption legal value = some value' ↔ trim value = value' ∧ value' ∈ legal := by
  unfold normalizeOption
  split
  · rename_i hmem
    constructor
    · rintro ⟨⟩
      exact ⟨rfl, hmem⟩
    · rintro ⟨rfl, _⟩
      rfl
  · rename_i hmem
    constructor
    · rintro ⟨⟩
    · rintro ⟨rfl, hlegal⟩
      exact absurd hlegal hmem

theorem normalizeOption_idem {legal : List String} {value value' : String}
    (h : normalizeOption legal value = some value') :
    normalizeOption legal value' = some value' := by
  obtain ⟨rfl, hmem⟩ := normalizeOption_eq_some.mp h
  exact normalizeOption_eq_some.mpr ⟨trim_trim value, hmem⟩

theorem normalizeOption_getD {legal : List String} {default : String}
    (h : normalizeOption legal default = some default) (value : String) :
    normalizeOption legal ((normalizeOption legal value).getD default) =
      some ((normalizeOption legal value).getD default) := by
  cases hvalue : normalizeOption legal value with
  | none => exact h
  | some value' => exact normalizeOption_idem hvalue

/-- The defaults are legal. -/
theorem normalizeGroupedVaultSort_default :
    normalizeOption groupedVaultSorts "order" = some "order" := by decide +kernel

theorem normalizeGroupedVaultSortDirection_default :
    normalizeOption groupedVaultSortDirections "asc" = some "asc" := by decide +kernel

/-! ## Settled groups -/

/-- Nothing to trim, heal or normalize. -/
structure VaultGroup.Settled (group : VaultGroup) : Prop where
  id : Trimmed group.id
  displayName : Trimmed group.displayName
  sort : normalizeGroupedVaultSort group.groupedVaultSort = some group.groupedVaultSort
  direction : normalizeGroupedVaultSortDirection group.groupedVaultSortDirection =
    some group.groupedVaultSortDirection
  vaults : CleanIds group.groupedVaults

end Upriv
