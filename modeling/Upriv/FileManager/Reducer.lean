import Upriv.Shared.FileTree.Paths
import Upriv.Support.Record

/-!
# The reducer of a file manager's workspace

`lib/fileManagerWorkspaceTypes.ts` and `lib/vaultWorkspaceReducer.ts` of the desktop's file
manager.  Every path begins with `/`, so no path is an empty text, which the code takes
for a missing one, or a property that every object has.
-/

namespace Upriv.FileManager

open FileTree

structure FileContextMenuState where
  x : Rat
  y : Rat
  path : TreePath
  deriving DecidableEq

structure FileDeleteTarget where
  path : TreePath
  name : List Char
  isFolder : Bool
  deriving DecidableEq

inductive UnsavedPromptAction where
  | closeTab (path : TreePath)
  | switchTab (toPath : TreePath)
  | dismissWorkspace
  deriving DecidableEq

structure VaultWorkspaceState where
  expandedPaths : List TreePath
  openTabs : List TreePath
  activeTabPath : Option TreePath
  selectedPath : Option TreePath
  treeSplitPercent : Rat
  treeRevision : ℕ
  editorDrafts : Record TreePath (List Char)
  dirtyPaths : List TreePath
  renamingPath : Option TreePath
  contextMenu : Option FileContextMenuState
  deleteTarget : Option FileDeleteTarget
  unsavedPrompt : Option UnsavedPromptAction
  dragSourcePath : Option TreePath
  dropTargetPath : Option TreePath

def TREE_SPLIT_DEFAULT_PERCENT : Rat := 20

def createDefaultWorkspaceState : VaultWorkspaceState where
  expandedPaths := [.root]
  openTabs := []
  activeTabPath := none
  selectedPath := none
  treeSplitPercent := TREE_SPLIT_DEFAULT_PERCENT
  treeRevision := 0
  editorDrafts := .empty
  dirtyPaths := []
  renamingPath := none
  contextMenu := none
  deleteTarget := none
  unsavedPrompt := none
  dragSourcePath := none
  dropTargetPath := none

inductive VaultWorkspaceAction where
  | toggleFolder (path : TreePath)
  | expandFolder (path : TreePath)
  | selectPath (path : TreePath)
  | openFile (path : TreePath)
  | requestCloseTab (path : TreePath)
  | closeTab (path : TreePath)
  | requestActiveTab (path : TreePath)
  | setActiveTab (path : TreePath)
  | setTreeSplit (percent : Rat)
  | treeMutated (revision : ℕ)
  | setEditorDraft (path : TreePath) (content : List Char)
  | markSaved (path : TreePath) (content : List Char)
  | startRename (path : TreePath)
  | cancelRename
  | setContextMenu (menu : Option FileContextMenuState)
  | setDeleteTarget (target : Option FileDeleteTarget)
  | setUnsavedPrompt (prompt : Option UnsavedPromptAction)
  | setDrag (source target : Option TreePath)
  | remapPaths (map : Record TreePath TreePath)
  | removePaths (paths : List TreePath)
  | discardUnsavedAnd (next : VaultWorkspaceAction)

/-- `map[p] ?? p`. -/
def mapped (map : Record TreePath TreePath) (p : TreePath) : TreePath := (map.get? p).getD p

/-- `filter(Boolean)` drops empty texts. -/
def remapList (paths : List TreePath) (map : Record TreePath TreePath) : List TreePath :=
  (paths.map (mapped map)).filter (·.text ≠ [])

def removeFromList (paths removeSet : List TreePath) : List TreePath :=
  paths.filter (· ∉ removeSet)

def applyPathMap (state : VaultWorkspaceState) (map : Record TreePath TreePath) :
    VaultWorkspaceState :=
  { state with
    openTabs := remapList state.openTabs map
    activeTabPath := state.activeTabPath.map (mapped map)
    selectedPath := state.selectedPath.map (mapped map)
    renamingPath := state.renamingPath.bind map.get?
    expandedPaths := remapList state.expandedPaths map
    editorDrafts := state.editorDrafts.mapKeys (mapped map)
    dirtyPaths :=
      (state.editorDrafts.keys.filter (· ∈ state.dirtyPaths)).map (mapped map) }

/-- `paths.indexOf(path)`. -/
def indexOf (paths : List TreePath) (path : TreePath) : ℤ :=
  if path ∈ paths then paths.idxOf path else -1

/-- `paths[index]`. -/
def atIndex (paths : List TreePath) (index : ℤ) : Option TreePath :=
  if 0 ≤ index then paths[index.toNat]? else none

/-- The tab that becomes active for the one that was at `closedIndex`. -/
def nextTab (openTabs : List TreePath) (closedIndex : ℤ) : Option TreePath :=
  (atIndex openTabs closedIndex).or (atIndex openTabs (closedIndex - 1))

def deleteDrafts (drafts : Record TreePath (List Char)) (paths : List TreePath) :
    Record TreePath (List Char) :=
  paths.foldl Record.delete drafts

def applyPathRemoval (state : VaultWorkspaceState) (paths : List TreePath) :
    VaultWorkspaceState :=
  let openTabs := removeFromList state.openTabs paths
  { state with
    openTabs := openTabs
    activeTabPath :=
      match state.activeTabPath with
      | none => none
      | some active =>
        if active ∈ paths then nextTab openTabs (indexOf state.openTabs active) else some active
    selectedPath := state.selectedPath.filter (· ∉ paths)
    renamingPath := state.renamingPath.filter (· ∉ paths)
    editorDrafts := deleteDrafts state.editorDrafts paths
    dirtyPaths := state.dirtyPaths.filter (· ∉ paths)
    expandedPaths := state.expandedPaths.filter (· ∉ paths) }

def needsUnsavedPrompt (state : VaultWorkspaceState) (path : Option TreePath) : Bool :=
  path.any (· ∈ state.dirtyPaths)

def activateTab (state : VaultWorkspaceState) (path : TreePath) : VaultWorkspaceState :=
  { state with activeTabPath := some path, selectedPath := some path, unsavedPrompt := none }

def discardDirtyPaths (state : VaultWorkspaceState) (paths : List TreePath) :
    VaultWorkspaceState :=
  { state with
    editorDrafts := deleteDrafts state.editorDrafts paths
    dirtyPaths := state.dirtyPaths.filter (· ∉ paths)
    unsavedPrompt := none }

/-- The case `close_tab`. -/
def closeTab (state : VaultWorkspaceState) (path : TreePath) : VaultWorkspaceState :=
  let openTabs := state.openTabs.filter (· ≠ path)
  { state with
    openTabs := openTabs
    activeTabPath :=
      if state.activeTabPath = some path then nextTab openTabs (indexOf state.openTabs path)
      else state.activeTabPath
    dirtyPaths := state.dirtyPaths.filter (· ≠ path)
    editorDrafts := state.editorDrafts.delete path
    unsavedPrompt := none }

/-- The case `request_active_tab`. -/
def requestActiveTab (state : VaultWorkspaceState) (path : TreePath) : VaultWorkspaceState :=
  if state.activeTabPath = some path then state
  else if needsUnsavedPrompt state state.activeTabPath then
    { state with unsavedPrompt := some (.switchTab path) }
  else activateTab state path

/-- The paths whose drafts the answer to the prompt discards. -/
def discardedPaths (state : VaultWorkspaceState) : List TreePath :=
  match state.unsavedPrompt with
  | some (.closeTab path) => [path]
  | some (.switchTab _) => state.activeTabPath.toList
  | some .dismissWorkspace => state.dirtyPaths
  | none => []

def vaultWorkspaceReducer (state : VaultWorkspaceState) : VaultWorkspaceAction → VaultWorkspaceState
  | .toggleFolder path =>
    { state with
      expandedPaths :=
        if path ∈ state.expandedPaths then state.expandedPaths.filter (· ≠ path)
        else state.expandedPaths ++ [path]
      selectedPath := some path }
  | .expandFolder path =>
    if path ∈ state.expandedPaths then state
    else { state with expandedPaths := state.expandedPaths ++ [path] }
  | .selectPath path => { state with selectedPath := some path }
  | .openFile path =>
    { state with
      openTabs := if path ∈ state.openTabs then state.openTabs else state.openTabs ++ [path]
      activeTabPath := some path
      selectedPath := some path
      unsavedPrompt := none }
  | .requestCloseTab path =>
    if needsUnsavedPrompt state (some path) then
      { state with unsavedPrompt := some (.closeTab path) }
    else closeTab state path
  | .closeTab path => closeTab state path
  | .requestActiveTab path => requestActiveTab state path
  | .setActiveTab path => requestActiveTab state path
  | .setTreeSplit percent => { state with treeSplitPercent := percent }
  | .treeMutated revision => { state with treeRevision := revision }
  | .setEditorDraft path content =>
    { state with
      editorDrafts := state.editorDrafts.set path content
      dirtyPaths :=
        if path ∈ state.dirtyPaths then state.dirtyPaths else state.dirtyPaths ++ [path] }
  | .markSaved path content =>
    { state with
      editorDrafts := state.editorDrafts.set path content
      dirtyPaths := state.dirtyPaths.filter (· ≠ path) }
  | .startRename path => { state with renamingPath := some path, contextMenu := none }
  | .cancelRename => { state with renamingPath := none }
  | .setContextMenu menu => { state with contextMenu := menu }
  | .setDeleteTarget target => { state with deleteTarget := target, contextMenu := none }
  | .setUnsavedPrompt prompt => { state with unsavedPrompt := prompt }
  | .setDrag source target => { state with dragSourcePath := source, dropTargetPath := target }
  | .remapPaths map => applyPathMap state map
  | .removePaths paths => applyPathRemoval state paths
  | .discardUnsavedAnd next =>
    vaultWorkspaceReducer (discardDirtyPaths state (discardedPaths state)) next

/-! ## What a map makes of the paths -/

theorem remapList_eq (paths : List TreePath) (map : Record TreePath TreePath) :
    remapList paths map = paths.map (mapped map) := by
  rw [remapList, List.filter_eq_self]
  intro path _
  refine decide_eq_true fun hempty => ?_
  have hhead := path.absolute
  rw [hempty] at hhead
  cases hhead

theorem openTabs_applyPathMap (state : VaultWorkspaceState) (map : Record TreePath TreePath) :
    (applyPathMap state map).openTabs = state.openTabs.map (mapped map) := remapList_eq _ _

theorem mem_dirtyPaths_applyPathMap {state : VaultWorkspaceState}
    {map : Record TreePath TreePath} {path : TreePath} :
    path ∈ (applyPathMap state map).dirtyPaths ↔
      ∃ old ∈ state.dirtyPaths, old ∈ state.editorDrafts.keys ∧ mapped map old = path := by
  rw [applyPathMap, List.mem_map]
  refine exists_congr fun old => ?_
  rw [List.mem_filter, decide_eq_true_iff, and_comm (b := old ∈ state.dirtyPaths), and_assoc]

end Upriv.FileManager
