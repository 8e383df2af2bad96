import Upriv.FileManager.Reducer

/-!
# The tabs of a workspace

What every action keeps: the open tabs are different, one of them is active as long as
there is any, and every dirty path has a draft.
-/

namespace Upriv.FileManager

open FileTree

structure Consistent (state : VaultWorkspaceState) : Prop where
  nodup : state.openTabs.Nodup
  active_none : state.activeTabPath = none ↔ state.openTabs = []
  active_mem : ∀ path, state.activeTabPath = some path → path ∈ state.openTabs
  drafted : ∀ path ∈ state.dirtyPaths, path ∈ state.editorDrafts.keys

theorem consistent_default : Consistent createDefaultWorkspaceState where
  nodup := List.nodup_nil
  active_none := iff_of_true rfl rfl
  active_mem := nofun
  drafted := nofun

/-! ## The next tab -/

theorem mem_of_atIndex {paths : List TreePath} {index : ℤ} {path : TreePath}
    (h : atIndex paths index = some path) : path ∈ paths := by
  rw [atIndex] at h
  split at h
  · exact List.mem_of_getElem? h
  · cases h

theorem mem_of_nextTab {tabs : List TreePath} {index : ℤ} {path : TreePath}
    (h : nextTab tabs index = some path) : path ∈ tabs := by
  rw [nextTab, Option.or_eq_some_iff] at h
  rcases h with h | ⟨-, h⟩
  · exact mem_of_atIndex h
  · exact mem_of_atIndex h

theorem atIndex_eq_none_iff {paths : List TreePath} {index : ℤ} :
    atIndex paths index = none ↔ index < 0 ∨ paths.length ≤ index := by
  rw [atIndex]
  split
  · rw [List.getElem?_eq_none_iff]
    omega
  · exact iff_of_true rfl (by omega)

/-- The index of the closed tab finds a tab among those that stay unless it is more than
one past their end. -/
theorem nextTab_eq_none_iff {tabs : List TreePath} {index : ℤ} (h : 0 ≤ index) :
    nextTab tabs index = none ↔ tabs = [] ∨ tabs.length < index := by
  rw [nextTab, Option.or_eq_none_iff, atIndex_eq_none_iff, atIndex_eq_none_iff,
    ← List.length_eq_zero_iff]
  omega

theorem indexOf_of_mem {paths : List TreePath} {path : TreePath} (h : path ∈ paths) :
    indexOf paths path = paths.idxOf path := if_pos h

theorem length_filter_ne {tabs : List TreePath} (hnodup : tabs.Nodup) {path : TreePath}
    (h : path ∈ tabs) : (tabs.filter (· ≠ path)).length + 1 = tabs.length := by
  have herase : tabs.filter (· ≠ path) = tabs.erase path := by
    rw [hnodup.erase_eq_filter]
    refine List.filter_congr fun tab _ => ?_
    rw [bne, decide_not, beq_eq_decide]
  rw [herase, List.length_erase_of_mem h]
  have hpos := List.length_pos_of_mem h
  omega

/-! ## What the actions keep -/

/-- The tabs that stay when the active one goes. -/
theorem consistent_remaining {state state' : VaultWorkspaceState} (h : Consistent state)
    {removed : TreePath → Prop} [DecidablePred removed]
    (htabs : state'.openTabs = state.openTabs.filter fun path => ¬ removed path)
    (hactive : state'.activeTabPath =
      match state.activeTabPath with
      | none => none
      | some active =>
        if removed active then nextTab state'.openTabs (indexOf state.openTabs active)
        else some active)
    (hroom : ∀ active, state.activeTabPath = some active → removed active →
      state'.openTabs = [] ∨ indexOf state.openTabs active ≤ state'.openTabs.length)
    (hdrafted : ∀ path ∈ state'.dirtyPaths, path ∈ state'.editorDrafts.keys) :
    Consistent state' := by
  have hkept : ∀ path ∈ state.openTabs, ¬ removed path → path ∈ state'.openTabs := by
    intro path hpath hnot
    rw [htabs]
    exact List.mem_filter.mpr ⟨hpath, decide_eq_true hnot⟩
  refine ⟨htabs ▸ h.nodup.filter _, ?_, ?_, hdrafted⟩
  · cases hold : state.activeTabPath with
    | none =>
      rw [hold] at hactive
      refine iff_of_true hactive ?_
      rw [htabs, h.active_none.mp hold, List.filter_nil]
    | some active =>
      rw [hold] at hactive
      have hmem := h.active_mem active hold
      by_cases hremoved : removed active
      · simp only [if_pos hremoved] at hactive
        have hindex := hroom active hold hremoved
        have hpos : 0 ≤ indexOf state.openTabs active := by
          rw [indexOf_of_mem hmem]
          exact Int.natCast_nonneg _
        rw [hactive, nextTab_eq_none_iff hpos]
        refine ⟨fun hnone => ?_, .inl⟩
        rcases hnone with hnone | hlt
        · exact hnone
        · exact hindex.resolve_right (Int.not_le.mpr hlt)
      · simp only [if_neg hremoved] at hactive
        rw [hactive]
        exact iff_of_false (Option.some_ne_none active)
          (List.ne_nil_of_mem (hkept active hmem hremoved))
  · intro path hpath
    cases hold : state.activeTabPath with
    | none =>
      rw [hold, hpath] at hactive
      cases hactive
    | some active =>
      rw [hold, hpath] at hactive
      by_cases hremoved : removed active
      · simp only [if_pos hremoved] at hactive
        exact mem_of_nextTab hactive.symm
      · simp only [if_neg hremoved] at hactive
        cases hactive
        exact hkept path (h.active_mem path hold) hremoved

theorem mem_keys_deleteDrafts {drafts : Record TreePath (List Char)} {paths : List TreePath}
    {path : TreePath} :
    path ∈ (deleteDrafts drafts paths).keys ↔ path ∈ drafts.keys ∧ path ∉ paths := by
  rw [deleteDrafts]
  induction paths generalizing drafts with
  | nil => exact (and_iff_left List.not_mem_nil).symm
  | cons removed paths ih =>
    rw [List.foldl_cons, ih, Record.mem_keys_delete, List.mem_cons, not_or, and_assoc]

theorem drafted_filter {dirtyPaths : List TreePath} {drafts : Record TreePath (List Char)}
    (h : ∀ path ∈ dirtyPaths, path ∈ drafts.keys) (paths : List TreePath) :
    ∀ path ∈ dirtyPaths.filter (· ∉ paths), path ∈ (deleteDrafts drafts paths).keys := by
  intro path hpath
  obtain ⟨hmem, hnot⟩ := List.mem_filter.mp hpath
  exact mem_keys_deleteDrafts.mpr ⟨h path hmem, of_decide_eq_true hnot⟩

theorem Consistent.discard {state : VaultWorkspaceState} (h : Consistent state)
    (paths : List TreePath) : Consistent (discardDirtyPaths state paths) where
  nodup := h.nodup
  active_none := h.active_none
  active_mem := h.active_mem
  drafted := drafted_filter h.drafted paths

theorem activeTabPath_closeTab (state : VaultWorkspaceState) (path : TreePath) :
    (closeTab state path).activeTabPath =
      if state.activeTabPath = some path then
        nextTab (closeTab state path).openTabs (indexOf state.openTabs path)
      else state.activeTabPath := rfl

theorem Consistent.closeTab {state : VaultWorkspaceState} (h : Consistent state)
    (path : TreePath) : Consistent (closeTab state path) := by
  have htabs : (FileManager.closeTab state path).openTabs =
      state.openTabs.filter fun tab => ¬ tab = path := rfl
  refine @consistent_remaining state _ h (· = path) _ htabs ?_ ?_ ?_
  · rw [activeTabPath_closeTab]
    cases hold : state.activeTabPath with
    | none => exact if_neg (Option.some_ne_none path).symm
    | some active =>
      by_cases heq : active = path
      · rw [if_pos (congrArg some heq), heq]
        exact (if_pos rfl).symm
      · rw [if_neg fun h => heq (Option.some.inj h)]
        exact (if_neg heq).symm
  · rintro active hactive rfl
    right
    have hmem := h.active_mem active hactive
    have hlength : (state.openTabs.filter fun tab => ¬ tab = active).length + 1 =
        state.openTabs.length := length_filter_ne h.nodup hmem
    have hindex := List.idxOf_lt_length_of_mem hmem
    rw [htabs, indexOf_of_mem hmem]
    omega
  · intro dirty hdirty
    obtain ⟨hmem, hne⟩ := List.mem_filter.mp hdirty
    exact Record.mem_keys_delete.mpr ⟨h.drafted dirty hmem, of_decide_eq_true hne⟩

theorem Consistent.activate {state : VaultWorkspaceState} (h : Consistent state) {path : TreePath}
    (hpath : path ∈ state.openTabs) : Consistent (activateTab state path) where
  nodup := h.nodup
  active_none := iff_of_false (Option.some_ne_none path) (List.ne_nil_of_mem hpath)
  active_mem _ heq := Option.some.inj heq ▸ hpath
  drafted := h.drafted

theorem Consistent.requestActiveTab {state : VaultWorkspaceState} (h : Consistent state)
    {path : TreePath} (hpath : path ∈ state.openTabs) :
    Consistent (requestActiveTab state path) := by
  rw [FileManager.requestActiveTab]
  split
  · exact h
  · split
    · exact ⟨h.nodup, h.active_none, h.active_mem, h.drafted⟩
    · exact h.activate hpath

theorem Consistent.openFile {state : VaultWorkspaceState} (h : Consistent state)
    (path : TreePath) : Consistent (vaultWorkspaceReducer state (.openFile path)) := by
  have hmem : path ∈ (vaultWorkspaceReducer state (.openFile path)).openTabs := by
    change path ∈ if path ∈ state.openTabs then state.openTabs else state.openTabs ++ [path]
    split
    · assumption
    · exact List.mem_append_right _ (List.mem_singleton_self path)
  refine ⟨?_, iff_of_false (Option.some_ne_none path) (List.ne_nil_of_mem hmem), ?_, h.drafted⟩
  · change (if path ∈ state.openTabs then state.openTabs else state.openTabs ++ [path]).Nodup
    split
    · exact h.nodup
    · rename_i hnew
      rw [List.nodup_append]
      refine ⟨h.nodup, List.nodup_singleton path, ?_⟩
      rintro _ hold _ heq rfl
      exact hnew (List.mem_singleton.mp heq ▸ hold)
  · intro active hactive
    exact Option.some.inj hactive ▸ hmem

theorem Consistent.setEditorDraft {state : VaultWorkspaceState} (h : Consistent state)
    (path : TreePath) (content : List Char) :
    Consistent (vaultWorkspaceReducer state (.setEditorDraft path content)) := by
  refine ⟨h.nodup, h.active_none, h.active_mem, fun dirty hdirty => Record.mem_keys_set.mpr ?_⟩
  change dirty ∈ if path ∈ state.dirtyPaths then state.dirtyPaths
    else state.dirtyPaths ++ [path] at hdirty
  split at hdirty
  · exact .inr (h.drafted dirty hdirty)
  · rcases List.mem_append.mp hdirty with hdirty | hdirty
    · exact .inr (h.drafted dirty hdirty)
    · exact .inl (List.mem_singleton.mp hdirty)

theorem Consistent.markSaved {state : VaultWorkspaceState} (h : Consistent state)
    (path : TreePath) (content : List Char) :
    Consistent (vaultWorkspaceReducer state (.markSaved path content)) := by
  refine ⟨h.nodup, h.active_none, h.active_mem, fun dirty hdirty => Record.mem_keys_set.mpr ?_⟩
  exact .inr (h.drafted dirty (List.mem_of_mem_filter hdirty))

/-! ## Maps to unused paths -/

/-- Different paths are sent to different ones, that have no tab and no draft. -/
structure RemapsToUnused (state : VaultWorkspaceState) (map : Record TreePath TreePath) :
    Prop where
  injective : ∀ p q path, map.get? p = some path → map.get? q = some path → p = q
  no_tab : ∀ p path, map.get? p = some path → path ∉ state.openTabs
  no_draft : ∀ p path, map.get? p = some path → path ∉ state.editorDrafts.keys

theorem mapped_inj_of_unused {map : Record TreePath TreePath} {used : List TreePath}
    (hinj : ∀ p q path, map.get? p = some path → map.get? q = some path → p = q)
    (hunused : ∀ p path, map.get? p = some path → path ∉ used) {p q : TreePath}
    (hp : p ∈ used) (hq : q ∈ used) (heq : mapped map p = mapped map q) : p = q := by
  rw [mapped, mapped] at heq
  cases hmap : map.get? p with
  | none =>
    cases hmap' : map.get? q with
    | none => rwa [hmap, hmap'] at heq
    | some path =>
      rw [hmap, hmap', Option.getD_none, Option.getD_some] at heq
      exact absurd (heq ▸ hp) (hunused q path hmap')
  | some path =>
    cases hmap' : map.get? q with
    | none =>
      rw [hmap, hmap', Option.getD_none, Option.getD_some] at heq
      exact absurd (heq ▸ hq) (hunused p path hmap)
    | some path' =>
      rw [hmap, hmap'] at heq
      cases heq
      exact hinj p q path hmap hmap'

theorem Consistent.applyPathMap {state : VaultWorkspaceState} (h : Consistent state)
    {map : Record TreePath TreePath} (hmap : RemapsToUnused state map) :
    Consistent (applyPathMap state map) := by
  have htabs := openTabs_applyPathMap state map
  refine ⟨?_, ?_, ?_, ?_⟩
  · rw [htabs]
    refine List.Nodup.map_on ?_ h.nodup
    intro p hp q hq
    exact mapped_inj_of_unused hmap.injective hmap.no_tab hp hq
  · rw [htabs, List.map_eq_nil_iff, ← h.active_none]
    exact Option.map_eq_none_iff
  · intro path hpath
    obtain ⟨active, hactive, rfl⟩ := Option.map_eq_some_iff.mp hpath
    rw [htabs]
    exact List.mem_map_of_mem (h.active_mem active hactive)
  · intro dirty hdirty
    obtain ⟨old, hold, hdraft, rfl⟩ := mem_dirtyPaths_applyPathMap.mp hdirty
    exact Record.mem_keys_mapKeys.mpr ⟨old, hdraft, rfl⟩

/-! ## Removing paths -/

/-- When the active tab goes with others, as many tabs stay as there were before it. -/
def LeavesNextTab (state : VaultWorkspaceState) (paths : List TreePath) : Prop :=
  ∀ active, state.activeTabPath = some active → active ∈ paths →
    removeFromList state.openTabs paths = [] ∨
      indexOf state.openTabs active ≤ (removeFromList state.openTabs paths).length

theorem Consistent.applyPathRemoval {state : VaultWorkspaceState} (h : Consistent state)
    {paths : List TreePath} (hroom : LeavesNextTab state paths) :
    Consistent (applyPathRemoval state paths) :=
  @consistent_remaining state _ h (· ∈ paths) _ rfl rfl hroom (drafted_filter h.drafted paths)

/-- Where fewer tabs stay, none becomes active. -/
theorem consistent_applyPathRemoval_iff {state : VaultWorkspaceState} (h : Consistent state)
    (paths : List TreePath) :
    Consistent (applyPathRemoval state paths) ↔ LeavesNextTab state paths := by
  refine ⟨fun hnew active hactive hmem => ?_, h.applyPathRemoval⟩
  have hnext : (applyPathRemoval state paths).activeTabPath =
      nextTab (removeFromList state.openTabs paths) (indexOf state.openTabs active) := by
    rw [applyPathRemoval, hactive]
    exact if_pos hmem
  have hpos : 0 ≤ indexOf state.openTabs active := by
    rw [indexOf_of_mem (h.active_mem active hactive)]
    exact Int.natCast_nonneg _
  by_contra hnot
  rw [not_or, Int.not_le] at hnot
  have hnone := (nextTab_eq_none_iff hpos).mpr (.inr hnot.2)
  exact hnot.1 (hnew.active_none.mp (hnext.trans hnone))

/-! ## The step -/

/-- Tabs are activated and drafts are set where a tab is open, and maps send paths to
unused ones. -/
def Allowed (state : VaultWorkspaceState) : VaultWorkspaceAction → Prop
  | .requestActiveTab path => path ∈ state.openTabs
  | .setActiveTab path => path ∈ state.openTabs
  | .setEditorDraft path _ => path ∈ state.openTabs
  | .remapPaths map => RemapsToUnused state map
  | .discardUnsavedAnd next => Allowed (discardDirtyPaths state (discardedPaths state)) next
  | _ => True

/-- A pending prompt stays about the same draft, and a removal leaves a next tab. -/
def Careful (state : VaultWorkspaceState) : VaultWorkspaceAction → Prop
  | .removePaths paths =>
    LeavesNextTab state paths ∧
      ∀ toPath, state.unsavedPrompt = some (.switchTab toPath) →
        ∀ active, state.activeTabPath = some active → active ∈ paths →
          removeFromList state.openTabs paths = []
  | .remapPaths map =>
    ∀ path, state.unsavedPrompt = some (.closeTab path) → ∀ p, map.get? p ≠ some path
  | .discardUnsavedAnd next => Careful (discardDirtyPaths state (discardedPaths state)) next
  | _ => True

theorem consistent_step {state : VaultWorkspaceState} {action : VaultWorkspaceAction}
    (h : Consistent state) (hallowed : Allowed state action) (hcareful : Careful state action) :
    Consistent (vaultWorkspaceReducer state action) := by
  induction action generalizing state with
  | openFile path => exact h.openFile path
  | requestCloseTab path =>
    rw [vaultWorkspaceReducer]
    split
    · exact ⟨h.nodup, h.active_none, h.active_mem, h.drafted⟩
    · exact h.closeTab path
  | closeTab path => exact h.closeTab path
  | requestActiveTab path => exact h.requestActiveTab hallowed
  | setActiveTab path => exact h.requestActiveTab hallowed
  | setEditorDraft path content => exact h.setEditorDraft path content
  | markSaved path content => exact h.markSaved path content
  | remapPaths map => exact h.applyPathMap hallowed
  | removePaths paths => exact h.applyPathRemoval hcareful.1
  | discardUnsavedAnd next ih => exact ih (h.discard _) hallowed hcareful
  | expandFolder path =>
    rw [vaultWorkspaceReducer]
    split
    · exact h
    · exact ⟨h.nodup, h.active_none, h.active_mem, h.drafted⟩
  | _ => exact ⟨h.nodup, h.active_none, h.active_mem, h.drafted⟩

end Upriv.FileManager
