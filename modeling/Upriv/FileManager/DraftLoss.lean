import Upriv.FileManager.TabInvariant
import Upriv.Support.Runs

/-!
# Which actions lose a draft

Beside the state of the reducer stands what the pending prompt was raised for.  The draft
of a dirty path goes only with an action for that path, or with the answer to a prompt
that was raised for it.
-/

namespace Upriv.FileManager

open FileTree

/-- What a prompt asks about.  A path is followed when it is renamed. -/
inductive PromptScope where
  | nobody
  | path (path : TreePath)
  | workspace

namespace PromptScope

def Covers : PromptScope → TreePath → Prop
  | nobody, _ => False
  | path p, q => q = p
  | workspace, _ => True

def map (f : TreePath → TreePath) : PromptScope → PromptScope
  | nobody => nobody
  | path p => path (f p)
  | workspace => workspace

end PromptScope

/-- The tab that is to be closed, the tab that is left, or everything. -/
def raisedFor (state : VaultWorkspaceState) : UnsavedPromptAction → PromptScope
  | .closeTab path => .path path
  | .switchTab _ =>
    match state.activeTabPath with
    | none => .nobody
    | some active => .path active
  | .dismissWorkspace => .workspace

/-- What the prompt that is pending after `requestActiveTab` was raised for. -/
def scopeAfterRequest (state : VaultWorkspaceState) (scope : PromptScope) (path : TreePath) :
    PromptScope :=
  if state.activeTabPath = some path then scope
  else if needsUnsavedPrompt state state.activeTabPath then raisedFor state (.switchTab path)
  else .nobody

/-- What the prompt that is pending after the action was raised for. -/
def scopeAfter (state : VaultWorkspaceState) (scope : PromptScope) :
    VaultWorkspaceAction → PromptScope
  | .openFile _ => .nobody
  | .requestCloseTab path =>
    if needsUnsavedPrompt state (some path) then raisedFor state (.closeTab path) else .nobody
  | .closeTab _ => .nobody
  | .requestActiveTab path => scopeAfterRequest state scope path
  | .setActiveTab path => scopeAfterRequest state scope path
  | .setUnsavedPrompt none => .nobody
  | .setUnsavedPrompt (some prompt) => raisedFor state prompt
  | .remapPaths map => scope.map (mapped map)
  | .discardUnsavedAnd next =>
    scopeAfter (discardDirtyPaths state (discardedPaths state)) .nobody next
  | _ => scope

structure Watched where
  state : VaultWorkspaceState
  scope : PromptScope

namespace Watched

def start : Watched := ⟨createDefaultWorkspaceState, .nobody⟩

/-- The reducer, watched. -/
def next (w : Watched) (action : VaultWorkspaceAction) : Watched :=
  ⟨vaultWorkspaceReducer w.state action, scopeAfter w.state w.scope action⟩

def step (w : Watched) (action : VaultWorkspaceAction) : Option Watched := some (w.next action)

/-- The state after the answer to a prompt has discarded its drafts. -/
def discarded (w : Watched) : Watched :=
  ⟨discardDirtyPaths w.state (discardedPaths w.state), .nobody⟩

theorem next_discardUnsavedAnd (w : Watched) (action : VaultWorkspaceAction) :
    w.next (.discardUnsavedAnd action) = w.discarded.next action := rfl

end Watched

/-! ## Losing and keeping -/

/-- The actions that may take the draft of a path, or its mark. -/
def TakesDraft (w : Watched) : VaultWorkspaceAction → TreePath → Prop
  | .markSaved path _, p => p = path
  | .closeTab path, p => p = path
  | .removePaths paths, p => p ∈ paths
  | .discardUnsavedAnd next, p =>
    w.state.unsavedPrompt.isSome ∧ w.scope.Covers p ∨ TakesDraft w.discarded next p
  | _, _ => False

/-- The path that a path becomes. -/
def pathAfter : VaultWorkspaceAction → TreePath → TreePath
  | .remapPaths map, p => mapped map p
  | .discardUnsavedAnd next, p => pathAfter next p
  | _, p => p

def Edits : VaultWorkspaceAction → TreePath → Prop
  | .setEditorDraft path _, p => p = path
  | .discardUnsavedAnd next, p => Edits next p
  | _, _ => False

/-- The path is dirty as before, and its draft is the same unless the action edits it. -/
structure KeepsDraft (state state' : VaultWorkspaceState) (action : VaultWorkspaceAction)
    (p : TreePath) : Prop where
  dirty : pathAfter action p ∈ state'.dirtyPaths
  draft : pathAfter action p ∈ state'.editorDrafts.keys
  content : ¬ Edits action p →
    state'.editorDrafts.get? (pathAfter action p) = state.editorDrafts.get? p

/-- No draft of a dirty path is lost without a reason. -/
def LosesNoDraft (w : Watched) (action : VaultWorkspaceAction) (w' : Watched) : Prop :=
  ∀ p ∈ w.state.dirtyPaths, TakesDraft w action p ∨ KeepsDraft w.state w'.state action p

/-- What the drafts that the answer would discard have to do with the scope. -/
def Tracked (w : Watched) : Prop :=
  match w.state.unsavedPrompt with
  | none => True
  | some (.closeTab path) =>
    w.scope = .path path ∨ path ∉ w.state.openTabs ∧ path ∉ w.state.dirtyPaths
  | some (.switchTab _) => ∀ active, w.state.activeTabPath = some active → w.scope = .path active
  | some .dismissWorkspace => w.scope = .workspace

theorem covers_of_mem_discardedPaths {w : Watched} (h : Tracked w) {p : TreePath}
    (hdirty : p ∈ w.state.dirtyPaths) (hp : p ∈ discardedPaths w.state) :
    w.state.unsavedPrompt.isSome ∧ w.scope.Covers p := by
  rw [Tracked] at h
  rw [discardedPaths] at hp
  split at hp
  · rename_i path hprompt
    rw [hprompt] at h ⊢
    rw [List.mem_singleton.mp hp] at hdirty ⊢
    rcases h with hscope | hgone
    · rw [hscope]
      exact ⟨rfl, rfl⟩
    · exact absurd hdirty hgone.2
  · rename_i toPath hprompt
    rw [hprompt] at h ⊢
    rw [h p (Option.mem_toList.mp hp)]
    exact ⟨rfl, rfl⟩
  · rename_i hprompt
    rw [hprompt] at h ⊢
    rw [show w.scope = .workspace from h]
    exact ⟨rfl, trivial⟩
  · cases hp

theorem tracked_of_prompt_eq_none {w : Watched} (h : w.state.unsavedPrompt = none) :
    Tracked w := by
  rw [Tracked, h]
  trivial

theorem tracked_raised {state : VaultWorkspaceState} {prompt : UnsavedPromptAction}
    (h : state.unsavedPrompt = some prompt) : Tracked ⟨state, raisedFor state prompt⟩ := by
  simp only [Tracked, h]
  cases prompt with
  | closeTab path => exact .inl rfl
  | switchTab toPath =>
    intro active hactive
    simp only [raisedFor, hactive]
  | dismissWorkspace => rfl

/-! ## A prompt stays about its draft -/

theorem mapped_eq_iff_of_not_value {map : Record TreePath TreePath} {path : TreePath}
    (h : ∀ p, map.get? p ≠ some path) {p : TreePath} :
    mapped map p = path ↔ p = path ∧ map.get? path = none := by
  rw [mapped]
  cases hmap : map.get? p with
  | none =>
    rw [Option.getD_none]
    refine ⟨fun heq => ⟨heq, heq ▸ hmap⟩, And.left⟩
  | some path' =>
    rw [Option.getD_some]
    refine iff_of_false (fun heq => h p (heq ▸ hmap)) ?_
    rintro ⟨rfl, hnone⟩
    rw [hmap] at hnone
    cases hnone

theorem tracked_remapPaths {w : Watched} (h : Tracked w) {map : Record TreePath TreePath}
    (hcareful : Careful w.state (.remapPaths map)) : Tracked (w.next (.remapPaths map)) := by
  have hprompt : (w.next (.remapPaths map)).state.unsavedPrompt = w.state.unsavedPrompt := rfl
  have hscope : (w.next (.remapPaths map)).scope = w.scope.map (mapped map) := rfl
  have htabs : (w.next (.remapPaths map)).state.openTabs = w.state.openTabs.map (mapped map) :=
    openTabs_applyPathMap w.state map
  rw [Tracked] at h ⊢
  rw [hprompt, hscope]
  split at h
  · trivial
  · rename_i path hclose
    have hnot := hcareful path hclose
    have hgone : (path ∉ w.state.openTabs ∧ path ∉ w.state.dirtyPaths ∨
        ∃ path', map.get? path = some path') →
        path ∉ (w.next (.remapPaths map)).state.openTabs ∧
          path ∉ (w.next (.remapPaths map)).state.dirtyPaths := by
      intro hor
      have hold : ∀ p, mapped map p = path → p = path ∧ map.get? path = none := fun p =>
        (mapped_eq_iff_of_not_value hnot).mp
      constructor
      · rw [htabs]
        intro hmem
        obtain ⟨p, hp, hpath⟩ := List.mem_map.mp hmem
        obtain ⟨rfl, hnone⟩ := hold p hpath
        rcases hor with hgone | ⟨path', hpath'⟩
        · exact hgone.1 hp
        · exact Option.some_ne_none path' (hpath'.symm.trans hnone)
      · intro hmem
        obtain ⟨p, hp, -, hpath⟩ := mem_dirtyPaths_applyPathMap.mp hmem
        obtain ⟨rfl, hnone⟩ := hold p hpath
        rcases hor with hgone | ⟨path', hpath'⟩
        · exact hgone.2 hp
        · exact Option.some_ne_none path' (hpath'.symm.trans hnone)
    rcases h with hpath | hnone
    · cases hmap : map.get? path with
      | none =>
        left
        rw [hpath, PromptScope.map, mapped, hmap, Option.getD_none]
      | some path' => exact .inr (hgone (.inr ⟨path', hmap⟩))
    · exact .inr (hgone (.inl hnone))
  · intro active hactive
    obtain ⟨old, hold, rfl⟩ := Option.map_eq_some_iff.mp hactive
    rw [h old hold, PromptScope.map]
  · rw [h, PromptScope.map]

theorem tracked_removePaths {w : Watched} (h : Tracked w) {paths : List TreePath}
    (hcareful : Careful w.state (.removePaths paths)) : Tracked (w.next (.removePaths paths)) := by
  have hprompt : (w.next (.removePaths paths)).state.unsavedPrompt = w.state.unsavedPrompt := rfl
  have hscope : (w.next (.removePaths paths)).scope = w.scope := rfl
  rw [Tracked] at h ⊢
  rw [hprompt, hscope]
  split at h
  · trivial
  · refine h.imp_right fun hgone => ⟨fun hmem => ?_, fun hmem => ?_⟩
    · exact hgone.1 (List.mem_of_mem_filter hmem)
    · exact hgone.2 (List.mem_of_mem_filter hmem)
  · rename_i toPath hswitch
    intro active hactive
    change (match w.state.activeTabPath with
      | none => none
      | some active =>
        if active ∈ paths then
          nextTab (removeFromList w.state.openTabs paths) (indexOf w.state.openTabs active)
        else some active) = some active at hactive
    split at hactive
    · cases hactive
    · rename_i old hold
      split at hactive
      · rename_i hmem
        rw [hcareful.2 toPath hswitch old hold hmem] at hactive
        exact absurd (mem_of_nextTab hactive) List.not_mem_nil
      · cases hactive
        exact h active hold
  · exact h

theorem tracked_setEditorDraft {w : Watched} (h : Tracked w) {path : TreePath}
    {content : List Char} (hopen : path ∈ w.state.openTabs) :
    Tracked (w.next (.setEditorDraft path content)) := by
  have hprompt : (w.next (.setEditorDraft path content)).state.unsavedPrompt =
      w.state.unsavedPrompt := rfl
  rw [Tracked] at h ⊢
  rw [hprompt]
  split at h
  · trivial
  · rename_i closing hclose
    refine h.imp_right fun hgone => ⟨hgone.1, fun hmem => ?_⟩
    change closing ∈ if path ∈ w.state.dirtyPaths then w.state.dirtyPaths
      else w.state.dirtyPaths ++ [path] at hmem
    split at hmem
    · exact hgone.2 hmem
    · rcases List.mem_append.mp hmem with hmem | hmem
      · exact hgone.2 hmem
      · exact hgone.1 (List.mem_singleton.mp hmem ▸ hopen)
  · exact h
  · exact h

theorem tracked_requestActiveTab {w : Watched} (h : Tracked w) (path : TreePath) :
    Tracked (w.next (.requestActiveTab path)) := by
  rw [Watched.next, vaultWorkspaceReducer, scopeAfter, requestActiveTab, scopeAfterRequest]
  split
  · exact h
  · split
    · exact @tracked_raised { w.state with unsavedPrompt := some (.switchTab path) } _ rfl
    · exact tracked_of_prompt_eq_none rfl

theorem tracked_step {w : Watched} {action : VaultWorkspaceAction} (h : Tracked w)
    (hallowed : Allowed w.state action) (hcareful : Careful w.state action) :
    Tracked (w.next action) := by
  induction action generalizing w with
  | openFile path => exact tracked_of_prompt_eq_none rfl
  | requestCloseTab path =>
    rw [Watched.next, vaultWorkspaceReducer, scopeAfter]
    split
    · exact @tracked_raised { w.state with unsavedPrompt := some (.closeTab path) } _ rfl
    · exact tracked_of_prompt_eq_none rfl
  | closeTab path => exact tracked_of_prompt_eq_none rfl
  | requestActiveTab path => exact tracked_requestActiveTab h path
  | setActiveTab path => exact tracked_requestActiveTab h path
  | setEditorDraft path content => exact tracked_setEditorDraft h hallowed
  | markSaved path content =>
    have hprompt : (w.next (.markSaved path content)).state.unsavedPrompt =
        w.state.unsavedPrompt := rfl
    rw [Tracked] at h ⊢
    rw [hprompt]
    split at h
    · trivial
    · exact h.imp_right fun hgone => ⟨hgone.1, fun hmem => hgone.2 (List.mem_of_mem_filter hmem)⟩
    · exact h
    · exact h
  | setUnsavedPrompt prompt =>
    cases prompt with
    | none => exact tracked_of_prompt_eq_none rfl
    | some prompt => exact tracked_raised rfl
  | remapPaths map => exact tracked_remapPaths h hcareful
  | removePaths paths => exact tracked_removePaths h hcareful
  | discardUnsavedAnd next ih =>
    rw [Watched.next_discardUnsavedAnd]
    exact ih (tracked_of_prompt_eq_none rfl) hallowed hcareful
  | expandFolder path =>
    rw [Watched.next, vaultWorkspaceReducer]
    split
    · exact h
    · exact h
  | _ => exact h

/-! ## The drafts that stay -/

theorem get?_deleteDrafts {drafts : Record TreePath (List Char)} {paths : List TreePath}
    {p : TreePath} (h : p ∉ paths) : (deleteDrafts drafts paths).get? p = drafts.get? p := by
  rw [deleteDrafts]
  induction paths generalizing drafts with
  | nil => rfl
  | cons path paths ih =>
    rw [List.mem_cons, not_or] at h
    rw [List.foldl_cons, ih h.2, Record.get?_delete_of_ne h.1]

section KeepsDraft

variable {state : VaultWorkspaceState} {p : TreePath}

theorem keepsDraft_closeTab (hdirty : p ∈ state.dirtyPaths) (hdraft : p ∈ state.editorDrafts.keys)
    {path : TreePath} (hne : p ≠ path) {action : VaultWorkspaceAction}
    (hsame : pathAfter action p = p) : KeepsDraft state (closeTab state path) action p := by
  rw [← hsame] at hdirty hdraft hne
  refine ⟨List.mem_filter.mpr ⟨hdirty, decide_eq_true hne⟩,
    Record.mem_keys_delete.mpr ⟨hdraft, hne⟩, fun _ => ?_⟩
  rw [hsame] at hne ⊢
  exact Record.get?_delete_of_ne hne

theorem keepsDraft_of_same (hdirty : p ∈ state.dirtyPaths) (hdraft : p ∈ state.editorDrafts.keys)
    {state' : VaultWorkspaceState} {action : VaultWorkspaceAction}
    (hdirtyPaths : state'.dirtyPaths = state.dirtyPaths)
    (hdrafts : state'.editorDrafts = state.editorDrafts) (hsame : pathAfter action p = p) :
    KeepsDraft state state' action p := by
  refine ⟨?_, ?_, fun _ => ?_⟩
  · rw [hsame, hdirtyPaths]
    exact hdirty
  · rw [hsame, hdrafts]
    exact hdraft
  · rw [hsame, hdrafts]

theorem keepsDraft_requestActiveTab (hdirty : p ∈ state.dirtyPaths)
    (hdraft : p ∈ state.editorDrafts.keys) (path : TreePath) {action : VaultWorkspaceAction}
    (hsame : pathAfter action p = p) :
    KeepsDraft state (requestActiveTab state path) action p := by
  rw [requestActiveTab]
  split
  · exact keepsDraft_of_same hdirty hdraft rfl rfl hsame
  · split
    · exact keepsDraft_of_same hdirty hdraft rfl rfl hsame
    · exact keepsDraft_of_same hdirty hdraft rfl rfl hsame

theorem keepsDraft_setEditorDraft (hdirty : p ∈ state.dirtyPaths)
    (hdraft : p ∈ state.editorDrafts.keys) (path : TreePath) (content : List Char) :
    KeepsDraft state (vaultWorkspaceReducer state (.setEditorDraft path content))
      (.setEditorDraft path content) p := by
  refine ⟨?_, Record.mem_keys_set.mpr (.inr hdraft), fun hne => Record.get?_set_of_ne hne⟩
  change p ∈ if path ∈ state.dirtyPaths then state.dirtyPaths else state.dirtyPaths ++ [path]
  split
  · exact hdirty
  · exact List.mem_append_left _ hdirty

theorem keepsDraft_markSaved (hdirty : p ∈ state.dirtyPaths)
    (hdraft : p ∈ state.editorDrafts.keys) {path : TreePath} (hne : p ≠ path)
    (content : List Char) :
    KeepsDraft state (vaultWorkspaceReducer state (.markSaved path content))
      (.markSaved path content) p :=
  ⟨List.mem_filter.mpr ⟨hdirty, decide_eq_true hne⟩, Record.mem_keys_set.mpr (.inr hdraft),
    fun _ => Record.get?_set_of_ne hne⟩

theorem keepsDraft_remapPaths (hdirty : p ∈ state.dirtyPaths)
    (hdraft : p ∈ state.editorDrafts.keys) {map : Record TreePath TreePath}
    (hmap : RemapsToUnused state map) :
    KeepsDraft state (vaultWorkspaceReducer state (.remapPaths map)) (.remapPaths map) p := by
  have hinj : ∀ a ∈ state.editorDrafts.keys, ∀ b ∈ state.editorDrafts.keys,
      mapped map a = mapped map b → a = b := fun a ha b hb =>
    mapped_inj_of_unused hmap.injective hmap.no_draft ha hb
  refine ⟨mem_dirtyPaths_applyPathMap.mpr ⟨p, hdirty, hdraft, rfl⟩,
    Record.mem_keys_mapKeys.mpr ⟨p, hdraft, rfl⟩, fun _ => ?_⟩
  exact Record.get?_mapKeys fun a ha => hinj a ha p hdraft

theorem keepsDraft_removePaths (hdirty : p ∈ state.dirtyPaths)
    (hdraft : p ∈ state.editorDrafts.keys) {paths : List TreePath} (hnot : p ∉ paths) :
    KeepsDraft state (vaultWorkspaceReducer state (.removePaths paths)) (.removePaths paths) p :=
  ⟨List.mem_filter.mpr ⟨hdirty, decide_eq_true hnot⟩, mem_keys_deleteDrafts.mpr ⟨hdraft, hnot⟩,
    fun _ => get?_deleteDrafts hnot⟩

end KeepsDraft

theorem losesNoDraft_step {w : Watched} {action : VaultWorkspaceAction}
    (hconsistent : Consistent w.state) (h : Tracked w) (hallowed : Allowed w.state action) :
    LosesNoDraft w action (w.next action) := by
  induction action generalizing w with
  | requestCloseTab path =>
    intro p hp
    right
    have hdraft := hconsistent.drafted p hp
    rw [Watched.next, vaultWorkspaceReducer]
    by_cases hneeds : needsUnsavedPrompt w.state (some path) = true
    · rw [if_pos hneeds]
      exact keepsDraft_of_same hp hdraft rfl rfl rfl
    · rw [if_neg hneeds]
      refine keepsDraft_closeTab hp hdraft ?_ rfl
      rintro rfl
      exact hneeds (decide_eq_true hp)
  | closeTab path =>
    intro p hp
    by_cases hpath : p = path
    · exact .inl hpath
    · exact .inr (keepsDraft_closeTab hp (hconsistent.drafted p hp) hpath rfl)
  | requestActiveTab path =>
    exact fun p hp => .inr (keepsDraft_requestActiveTab hp (hconsistent.drafted p hp) path rfl)
  | setActiveTab path =>
    exact fun p hp => .inr (keepsDraft_requestActiveTab hp (hconsistent.drafted p hp) path rfl)
  | setEditorDraft path content =>
    exact fun p hp =>
      .inr (keepsDraft_setEditorDraft hp (hconsistent.drafted p hp) path content)
  | markSaved path content =>
    intro p hp
    by_cases hpath : p = path
    · exact .inl hpath
    · exact .inr (keepsDraft_markSaved hp (hconsistent.drafted p hp) hpath content)
  | remapPaths map =>
    exact fun p hp => .inr (keepsDraft_remapPaths hp (hconsistent.drafted p hp) hallowed)
  | removePaths paths =>
    intro p hp
    by_cases hpaths : p ∈ paths
    · exact .inl hpaths
    · exact .inr (keepsDraft_removePaths hp (hconsistent.drafted p hp) hpaths)
  | discardUnsavedAnd next ih =>
    intro p hp
    by_cases hdiscarded : p ∈ discardedPaths w.state
    · exact .inl (.inl (covers_of_mem_discardedPaths h hp hdiscarded))
    · have hkept : p ∈ w.discarded.state.dirtyPaths :=
        List.mem_filter.mpr ⟨hp, decide_eq_true hdiscarded⟩
      have hrest := @ih w.discarded (hconsistent.discard _) (tracked_of_prompt_eq_none rfl)
        hallowed p hkept
      refine hrest.imp .inr fun hkeeps => ⟨hkeeps.dirty, hkeeps.draft, fun hedits => ?_⟩
      exact (hkeeps.content hedits).trans (get?_deleteDrafts hdiscarded)
  | expandFolder path =>
    intro p hp
    right
    rw [Watched.next, vaultWorkspaceReducer]
    split
    · exact keepsDraft_of_same hp (hconsistent.drafted p hp) rfl rfl rfl
    · exact keepsDraft_of_same hp (hconsistent.drafted p hp) rfl rfl rfl
  | _ => exact fun p hp => .inr (keepsDraft_of_same hp (hconsistent.drafted p hp) rfl rfl rfl)

/-! ## Runs -/

/-- The steps of the runs that are considered. -/
def Steady (w : Watched) (action : VaultWorkspaceAction) (_ : Watched) : Prop :=
  Allowed w.state action ∧ Careful w.state action

/-- The watch changes nothing: the state is the reducer's. -/
theorem state_of_run {Ok : Watched → VaultWorkspaceAction → Watched → Prop} {w w' : Watched}
    {actions : List VaultWorkspaceAction} (hrun : Run Watched.step Ok w actions w') :
    w'.state = actions.foldl vaultWorkspaceReducer w.state := by
  induction hrun with
  | refl => rfl
  | tail _ hstep _ ih =>
    cases hstep
    rw [List.foldl_append, ← ih]
    rfl

/-- Every run from the default state: the tabs are consistent at its end, and no step of it
loses a draft without a reason. -/
theorem consistent_of_run {actions : List VaultWorkspaceAction} {w : Watched}
    (hrun : Run Watched.step Steady Watched.start actions w) :
    w.state = actions.foldl vaultWorkspaceReducer createDefaultWorkspaceState ∧
      Consistent w.state ∧ Run Watched.step LosesNoDraft Watched.start actions w := by
  have hstart : Consistent Watched.start.state ∧ Tracked Watched.start :=
    ⟨consistent_default, tracked_of_prompt_eq_none rfl⟩
  have hstep : ∀ w action w', Consistent w.state ∧ Tracked w → Watched.step w action = some w' →
      Steady w action w' → Consistent w'.state ∧ Tracked w' := by
    rintro w action w' ⟨hconsistent, htracked⟩ hnext ⟨hallowed, hcareful⟩
    cases hnext
    exact ⟨consistent_step hconsistent hallowed hcareful, tracked_step htracked hallowed hcareful⟩
  refine ⟨state_of_run hrun,
    (hrun.invariant (fun w => Consistent w.state ∧ Tracked w) hstart hstep).1, ?_⟩
  refine hrun.strengthen (fun w => Consistent w.state ∧ Tracked w) hstart hstep ?_
  rintro w action w' ⟨hconsistent, htracked⟩ hnext ⟨hallowed, -⟩
  cases hnext
  exact losesNoDraft_step hconsistent htracked hallowed

def fileA : TreePath := ⟨"/a".toList, rfl⟩

def fileB : TreePath := ⟨"/d/b".toList, rfl⟩

def fileC : TreePath := ⟨"/d/c".toList, rfl⟩

/-- A changed file is closed, and its draft is discarded. -/
theorem consistent_of_run_close :
    Consistent ([.openFile fileA, .setEditorDraft fileA "x".toList, .requestCloseTab fileA,
      .discardUnsavedAnd (.closeTab fileA)].foldl vaultWorkspaceReducer
        createDefaultWorkspaceState) := by
  have hopen : Run Watched.step Steady Watched.start [.openFile fileA] _ :=
    .tail (.refl _) rfl ⟨trivial, trivial⟩
  have hdraft : Run Watched.step Steady Watched.start
      [.openFile fileA, .setEditorDraft fileA "x".toList] _ :=
    hopen.tail rfl ⟨List.mem_singleton_self fileA, trivial⟩
  have hprompt : Run Watched.step Steady Watched.start
      [.openFile fileA, .setEditorDraft fileA "x".toList, .requestCloseTab fileA] _ :=
    hdraft.tail rfl ⟨trivial, trivial⟩
  have hclose : Run Watched.step Steady Watched.start
      [.openFile fileA, .setEditorDraft fileA "x".toList, .requestCloseTab fileA,
        .discardUnsavedAnd (.closeTab fileA)] _ :=
    hprompt.tail rfl ⟨trivial, trivial⟩
  obtain ⟨hstate, hconsistent, -⟩ := consistent_of_run hclose
  rwa [hstate] at hconsistent

/-- The folder of two open files is deleted: no tab is active, though one is open. -/
def deleteRun : List VaultWorkspaceAction :=
  [.openFile fileA, .openFile fileB, .openFile fileC, .removePaths [fileB, fileC]]

/-- The answer to a prompt about a file that has been deleted since. -/
def staleRun : List VaultWorkspaceAction :=
  [.openFile fileA, .openFile fileB, .setEditorDraft fileA "x".toList,
    .setEditorDraft fileB "y".toList, .requestActiveTab fileA, .removePaths [fileB]]

/-- A run with allowed actions ends without an active tab, and another one is asked about
one file and discards the draft of another. -/
theorem not_consistent_deleteRun :
    (∃ w, Run Watched.step (fun w action _ => Allowed w.state action) Watched.start deleteRun w ∧
      w.state.openTabs = [fileA] ∧ w.state.activeTabPath = none ∧ ¬ Consistent w.state) ∧
    ∃ w, Run Watched.step (fun w action _ => Allowed w.state action) Watched.start staleRun w ∧
      Allowed w.state (.discardUnsavedAnd (.requestActiveTab fileA)) ∧
      ¬ LosesNoDraft w (.discardUnsavedAnd (.requestActiveTab fileA))
        (w.next (.discardUnsavedAnd (.requestActiveTab fileA))) := by
  constructor
  · refine ⟨deleteRun.foldl Watched.next Watched.start, ?_, by decide, by decide, ?_⟩
    · exact (((Run.refl _).tail rfl trivial).tail rfl trivial).tail rfl trivial |>.tail rfl trivial
    · intro h
      have hopen := h.active_none.mp (by decide)
      revert hopen
      decide
  · refine ⟨staleRun.foldl Watched.next Watched.start, ?_, ?_, ?_⟩
    · have hfiles : Run Watched.step (fun w action _ => Allowed w.state action) Watched.start
          [.openFile fileA, .openFile fileB] _ := ((Run.refl _).tail rfl trivial).tail rfl trivial
      have hA : fileA ∈ [fileA, fileB] := List.mem_cons_self
      have hB : fileB ∈ [fileA, fileB] := List.mem_cons_of_mem _ List.mem_cons_self
      have hdraftA : Run Watched.step (fun w action _ => Allowed w.state action) Watched.start
          [.openFile fileA, .openFile fileB, .setEditorDraft fileA "x".toList] _ :=
        hfiles.tail (e := VaultWorkspaceAction.setEditorDraft fileA "x".toList) rfl hA
      have hdraftB : Run Watched.step (fun w action _ => Allowed w.state action) Watched.start
          [.openFile fileA, .openFile fileB, .setEditorDraft fileA "x".toList,
            .setEditorDraft fileB "y".toList] _ :=
        hdraftA.tail (e := VaultWorkspaceAction.setEditorDraft fileB "y".toList) rfl hB
      have hprompt : Run Watched.step (fun w action _ => Allowed w.state action) Watched.start
          [.openFile fileA, .openFile fileB, .setEditorDraft fileA "x".toList,
            .setEditorDraft fileB "y".toList, .requestActiveTab fileA] _ :=
        hdraftB.tail (e := VaultWorkspaceAction.requestActiveTab fileA) rfl hA
      exact hprompt.tail rfl trivial
    · exact List.mem_singleton_self fileA
    · intro h
      rcases h fileA (by decide) with htakes | hkeeps
      · rcases htakes with ⟨-, hcovers⟩ | hnext
        · exact absurd (show fileA = fileB from hcovers) (by decide)
        · exact hnext
      · have hdirty := hkeeps.dirty
        revert hdirty
        decide

end Upriv.FileManager
