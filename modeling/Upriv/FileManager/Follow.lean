import Upriv.FileManager.Requests

/-!
# Open editors after a rename or a move

The workspace knows the new path of the file or the folder of the request only, and the
contents are mapped below a folder, too.
-/

namespace Upriv.FileManager

open FileTree
open NamedTree hiding node

/-- A path that the workspace has a tab, a draft or a mark for. -/
def InUse (state : VaultWorkspaceState) (path : TreePath) : Prop :=
  path ∈ state.openTabs ∨ state.activeTabPath = some path ∨ path ∈ state.editorDrafts.keys ∨
    path ∈ state.dirtyPaths

/-- The workspace `state'` shows the files of `session'` that those of `state` have become
when a path becomes another. -/
structure Follows (session session' : VaultFileSession) (state state' : VaultWorkspaceState)
    (fromPath toPath : TreePath) : Prop where
  openTabs : state'.openTabs = state.openTabs.map (remapPath fromPath toPath)
  activeTabPath : state'.activeTabPath = state.activeTabPath.map (remapPath fromPath toPath)
  drafts : ∀ path ∈ state.editorDrafts.keys,
    state'.editorDrafts.get? (remapPath fromPath toPath path) = state.editorDrafts.get? path
  draftPaths : ∀ path, path ∈ state'.editorDrafts.keys ↔
    ∃ old ∈ state.editorDrafts.keys, remapPath fromPath toPath old = path
  dirtyPaths : ∀ path, path ∈ state'.dirtyPaths ↔
    ∃ old ∈ state.dirtyPaths, remapPath fromPath toPath old = path
  exist : ∀ path, InUse state' path → path ∈ collectFilePaths session'.tree .root
  contents : ∀ path, InUse state path →
    session'.contents.get? (remapPath fromPath toPath path) = session.contents.get? path

theorem mapped_single (fromPath toPath path : TreePath) :
    mapped (.single fromPath toPath) path = if fromPath = path then toPath else path := by
  rw [mapped, Record.get?_single]
  split <;> rfl

/-- Of the contents that are kept at a path and at its new one the last is that of the
path, if there are any. -/
def ContentKept (contents : Record TreePath (List Char)) (fromPath toPath : TreePath) : Prop :=
  (contents.entries.reverse.find? fun entry =>
    entry.1 = fromPath ∨ entry.1 = toPath).map Prod.snd = contents.get? fromPath

/-- No path in use is below the path of the request, and every dirty path has a draft. -/
structure NoneBelow (state : VaultWorkspaceState) (path : TreePath) : Prop where
  notBelow : ∀ used, InUse state used → isDescendantPath path used = true → used = path
  drafted : ∀ dirty ∈ state.dirtyPaths, dirty ∈ state.editorDrafts.keys

namespace Relocates

variable {session session' : VaultFileSession} {segs segs' : List (List Char)}
  (h : Relocates session session' segs segs') (htree : IsFileTree session.tree)
include h

theorem not_begin {way : List (List Char)} {node : FileTreeNode}
    (hnode : find way session.tree = some node) : ¬ segs' <+: way := by
  intro hbegin
  obtain ⟨u, hu⟩ := exists_find_of_begin hnode hbegin
  rw [h.free] at hu
  cases hu

/-- Nothing but a file and what is kept at its new path comes to the new path. -/
theorem remapPath_eq_new_iff (hfile : ofSegments segs ∈ collectFilePaths session.tree .root)
    (other : TreePath) :
    remapPath (ofSegments segs) (ofSegments segs') other = ofSegments segs' ↔
      other = ofSegments segs ∨ other = ofSegments segs' := by
  rw [remapPath]
  split
  · rename_i hsame
    exact iff_of_true rfl (.inl hsame)
  · rename_i hne
    rw [or_iff_right hne]
    split
    · rename_i hbelow
      refine iff_of_false (fun heq => ?_) ?_
      · obtain ⟨rest, hrest⟩ := hbelow
        have htext := congrArg (List.length ∘ TreePath.text) heq
        simp [← hrest] at htext
      · rintro rfl
        exact h.folder ((pathText_sep_prefix_iff h.ne_nil h.names h.names').mp hbelow).1 hfile
    · rfl

/-- What is at the new path of a file afterwards. -/
theorem get?_contents_new (hfile : ofSegments segs ∈ collectFilePaths session.tree .root) :
    session'.contents.get? (ofSegments segs') =
      (session.contents.entries.reverse.find? fun entry =>
        entry.1 = ofSegments segs ∨ entry.1 = ofSegments segs').map Prod.snd := by
  rw [h.contents, remapContentPaths, Record.get?_mapKeys_eq_find?]
  simp only [h.remapPath_eq_new_iff hfile]

include htree

/-- The map of the workspace and the mapping of the contents differ below the path. -/
theorem mapped_eq_remapPath_iff {p : TreePath} (hp : p ∈ collectFilePaths session.tree .root) :
    mapped (.single (ofSegments segs) (ofSegments segs')) p =
        remapPath (ofSegments segs) (ofSegments segs') p ↔
      (isDescendantPath (ofSegments segs) p = true → p = ofSegments segs) := by
  obtain ⟨way, node, hway, rfl, hnode, -⟩ := (mem_collectFilePaths_iff htree).mp hp
  rw [mapped_single, isDescendantPath_ofSegments h.names hway h.ne_nil]
  split
  · rename_i heq
    rw [← heq, remapPath, if_pos rfl]
    exact iff_of_true rfl fun _ => rfl
  · rename_i hne
    rw [remapPath_ofSegments h.names hway h.ne_nil h.ne_nil']
    by_cases hbegin : segs <+: way
    · refine iff_of_false ?_ fun hall => hne (hall hbegin).symm
      intro heq
      obtain ⟨rest, rfl⟩ := hbegin
      rw [replacePrefix_append] at heq
      have hnames : ∀ s ∈ segs' ++ rest, IsFileName s := by
        intro s hs
        rcases List.mem_append.mp hs with hs | hs
        · exact h.names' s hs
        · exact hway s (List.mem_append_right _ hs)
      rw [ofSegments_inj hway hnames] at heq
      exact h.not_begin hnode (heq ▸ List.prefix_append segs' rest)
    · rw [replacePrefix_of_not_begin hbegin]
      exact iff_of_true rfl fun h => absurd h hbegin

/-- Below the new path there is no file, so a path that the workspace maps to where the
contents of a file go is the path of that file. -/
theorem eq_of_mapped_eq_remapPath {p q : TreePath}
    (hp : p ∈ collectFilePaths session.tree .root) (hq : q ∈ collectFilePaths session.tree .root)
    (heq : mapped (.single (ofSegments segs) (ofSegments segs')) q =
      remapPath (ofSegments segs) (ofSegments segs') p) : q = p := by
  obtain ⟨way, node, hway, rfl, hnode, -⟩ := (mem_collectFilePaths_iff htree).mp hp
  obtain ⟨way', node', hway', rfl, hnode', -⟩ :=
    (mem_collectFilePaths_iff htree).mp hq
  rw [mapped_single, remapPath_ofSegments h.names hway h.ne_nil h.ne_nil'] at heq
  by_cases hbegin : segs <+: way
  · obtain ⟨rest, rfl⟩ := hbegin
    have hnames : ∀ s ∈ segs' ++ rest, IsFileName s := by
      intro s hs
      rcases List.mem_append.mp hs with hs | hs
      · exact h.names' s hs
      · exact hway s (List.mem_append_right _ hs)
    rw [replacePrefix_append] at heq
    split at heq
    · rename_i hpath
      rw [ofSegments_inj h.names' hnames, List.self_eq_append_right] at heq
      rw [← hpath, heq, List.append_nil]
    · rw [ofSegments_inj hway' hnames] at heq
      exact absurd (heq ▸ List.prefix_append segs' rest) (h.not_begin hnode')
  · rw [replacePrefix_of_not_begin hbegin] at heq
    split at heq
    · rw [ofSegments_inj h.names' hway] at heq
      exact absurd (heq ▸ List.prefix_refl _) (h.not_begin hnode)
    · exact heq

/-- The content of any other file is kept, if the file is not below the path. -/
theorem get?_contents_other {p : TreePath} (hp : p ∈ collectFilePaths session.tree .root)
    (hbelow : isDescendantPath (ofSegments segs) p ≠ true) :
    session'.contents.get? (remapPath (ofSegments segs) (ofSegments segs') p) =
      session.contents.get? p := by
  obtain ⟨way, node, hway, rfl, hnode, -⟩ := (mem_collectFilePaths_iff htree).mp hp
  rw [ne_eq, isDescendantPath_ofSegments h.names hway h.ne_nil] at hbelow
  rw [h.contents]
  refine Record.get?_mapKeys fun other _ hsame => ?_
  rw [remapPath_ofSegments h.names hway h.ne_nil h.ne_nil', replacePrefix_of_not_begin hbelow,
    remapPath] at hsame
  split at hsame
  · rw [ofSegments_inj h.names' hway] at hsame
    exact absurd (hsame ▸ List.prefix_refl _) (h.not_begin hnode)
  · split at hsame
    · rename_i hbegin
      obtain ⟨rest, hrest⟩ := hbegin
      have htext : (ofSegments segs').text ++ ['/'] <+: (ofSegments way).text := by
        have hnew : (ofSegments segs').text ++ other.text.drop (ofSegments segs).text.length =
            (ofSegments way).text := congrArg TreePath.text hsame
        rw [← hrest, List.append_assoc, List.drop_left, ← List.append_assoc] at hnew
        exact ⟨rest, hnew⟩
      exact absurd ((pathText_sep_prefix_iff h.ne_nil' h.names' hway).mp htext).1
        (h.not_begin hnode)
    · exact hsame

section Workspace

variable {state : VaultWorkspaceState}
  (hopen : ∀ path, InUse state path → path ∈ collectFilePaths session.tree .root)
include hopen

theorem noneBelow_of_follows
    (hfollows : Follows session session' state
      (applyPathMap state (.single (ofSegments segs) (ofSegments segs')))
      (ofSegments segs) (ofSegments segs')) : NoneBelow state (ofSegments segs) := by
  have hdirty : ∀ path ∈ state.dirtyPaths, path ∈ state.editorDrafts.keys ∧
      mapped (.single (ofSegments segs) (ofSegments segs')) path =
        remapPath (ofSegments segs) (ofSegments segs') path := by
    intro path hpath
    obtain ⟨old, hold, hdraft, heq⟩ :=
      mem_dirtyPaths_applyPathMap.mp ((hfollows.dirtyPaths _).mpr ⟨path, hpath, rfl⟩)
    have hsame := h.eq_of_mapped_eq_remapPath htree (hopen path (.inr (.inr (.inr hpath))))
      (hopen old (.inr (.inr (.inr hold)))) heq
    rw [hsame] at hdraft heq
    exact ⟨hdraft, heq⟩
  refine ⟨fun path hpath => ?_, fun path hpath => (hdirty path hpath).1⟩
  refine (h.mapped_eq_remapPath_iff htree (hopen path hpath)).mp ?_
  rcases hpath with htab | hactive | hdraft | hmark
  · have htabs := hfollows.openTabs
    rw [openTabs_applyPathMap, List.map_inj_left] at htabs
    exact htabs path htab
  · have hboth := hfollows.activeTabPath
    rw [applyPathMap, hactive] at hboth
    exact Option.some.inj hboth
  · obtain ⟨old, hold, heq⟩ :=
      Record.mem_keys_mapKeys.mp ((hfollows.draftPaths _).mpr ⟨path, hdraft, rfl⟩)
    have hsame := h.eq_of_mapped_eq_remapPath htree (hopen path (.inr (.inr (.inl hdraft))))
      (hopen old (.inr (.inr (.inl hold)))) heq
    rwa [hsame] at heq
  · exact (hdirty path hmark).2

variable (hnone : NoneBelow state (ofSegments segs))
include hnone

theorem mapped_of_noneBelow {path : TreePath} (hpath : InUse state path) :
    mapped (.single (ofSegments segs) (ofSegments segs')) path =
      remapPath (ofSegments segs) (ofSegments segs') path :=
  (h.mapped_eq_remapPath_iff htree (hopen path hpath)).mpr (hnone.notBelow path hpath)

theorem remapPath_mem_files {path : TreePath} (hpath : InUse state path) :
    remapPath (ofSegments segs) (ofSegments segs') path ∈
      collectFilePaths session'.tree .root := by
  rcases h.files with hfiles | ⟨hsame, hinto⟩
  · exact (hfiles _).mpr ⟨path, hopen path hpath, rfl⟩
  · have hne : ofSegments segs ≠ path := fun heq => h.folder hinto (heq ▸ hopen path hpath)
    rw [← h.mapped_of_noneBelow htree hopen hnone hpath, mapped_single, if_neg hne, hsame]
    exact hopen path hpath

theorem follows_of_noneBelow
    (hkept : InUse state (ofSegments segs) →
      ContentKept session.contents (ofSegments segs) (ofSegments segs')) :
    Follows session session' state
      (applyPathMap state (.single (ofSegments segs) (ofSegments segs')))
      (ofSegments segs) (ofSegments segs') := by
  have hsame : ∀ path, InUse state path →
      mapped (.single (ofSegments segs) (ofSegments segs')) path =
        remapPath (ofSegments segs) (ofSegments segs') path :=
    fun _ => h.mapped_of_noneBelow htree hopen hnone
  have hfiles : ∀ path, InUse state path → remapPath (ofSegments segs) (ofSegments segs') path ∈
      collectFilePaths session'.tree .root :=
    fun _ => h.remapPath_mem_files htree hopen hnone
  have hdraftPaths : ∀ path, path ∈ (applyPathMap state
        (.single (ofSegments segs) (ofSegments segs'))).editorDrafts.keys ↔
      ∃ old ∈ state.editorDrafts.keys,
        remapPath (ofSegments segs) (ofSegments segs') old = path := by
    intro path
    refine Record.mem_keys_mapKeys.trans (exists_congr fun old => and_congr_right fun hold => ?_)
    rw [hsame old (.inr (.inr (.inl hold)))]
  have hdirtyPaths : ∀ path, path ∈ (applyPathMap state
        (.single (ofSegments segs) (ofSegments segs'))).dirtyPaths ↔
      ∃ old ∈ state.dirtyPaths, remapPath (ofSegments segs) (ofSegments segs') old = path := by
    intro path
    refine mem_dirtyPaths_applyPathMap.trans
      (exists_congr fun old => and_congr_right fun hold => ?_)
    rw [hsame old (.inr (.inr (.inr hold))), and_iff_right (hnone.drafted old hold)]
  refine ⟨?_, ?_, ?_, hdraftPaths, hdirtyPaths, ?_, ?_⟩
  · rw [openTabs_applyPathMap]
    exact List.map_congr_left fun path hpath => hsame path (.inl hpath)
  · exact Option.map_congr fun path hpath => hsame path (.inr (.inl hpath))
  · have hinj : ∀ a ∈ state.editorDrafts.keys, ∀ b ∈ state.editorDrafts.keys,
        mapped (.single (ofSegments segs) (ofSegments segs')) a =
          mapped (.single (ofSegments segs) (ofSegments segs')) b → a = b := by
      intro a ha b hb heq
      rw [hsame b (.inr (.inr (.inl hb)))] at heq
      exact h.eq_of_mapped_eq_remapPath htree (hopen b (.inr (.inr (.inl hb))))
        (hopen a (.inr (.inr (.inl ha)))) heq
    intro path hpath
    rw [← hsame path (.inr (.inr (.inl hpath)))]
    exact Record.get?_mapKeys fun a ha => hinj a ha path hpath
  · intro path hpath
    rcases hpath with htab | hactive | hdraft | hmark
    · rw [openTabs_applyPathMap] at htab
      obtain ⟨old, hold, rfl⟩ := List.mem_map.mp htab
      rw [hsame old (.inl hold)]
      exact hfiles old (.inl hold)
    · obtain ⟨old, hold, rfl⟩ := Option.map_eq_some_iff.mp hactive
      rw [hsame old (.inr (.inl hold))]
      exact hfiles old (.inr (.inl hold))
    · obtain ⟨old, hold, rfl⟩ := (hdraftPaths path).mp hdraft
      exact hfiles old (.inr (.inr (.inl hold)))
    · obtain ⟨old, hold, rfl⟩ := (hdirtyPaths path).mp hmark
      exact hfiles old (.inr (.inr (.inr hold)))
  · intro path hpath
    by_cases hbelow : isDescendantPath (ofSegments segs) path = true
    · obtain rfl := hnone.notBelow path hpath hbelow
      rw [remapPath, if_pos rfl, h.get?_contents_new (hopen _ hpath)]
      exact hkept hpath
    · exact h.get?_contents_other htree (hopen path hpath) hbelow

end Workspace

end Relocates

/-- The action that is dispatched for an accepted request has the mapping of the contents,
and the open editors follow exactly when none is below a renamed or moved folder and the
contents keep nothing for the new path of an open file. -/
theorem follows_perform_iff {session : VaultFileSession} {state : VaultWorkspaceState}
    {request : FileRequest} {map : Record TreePath TreePath} (htree : IsFileTree session.tree)
    (hopen : ∀ path, InUse state path → path ∈ collectFilePaths session.tree .root)
    (hnormal : request.IsNormalized) (hexists : findNode session.tree request.path ≠ none)
    (hdispatch : .remapPaths map ∈ (perform session request).2) :
    ∃ newPath, map = .single request.path newPath ∧
      (perform session request).1.contents =
        remapContentPaths session.contents request.path newPath ∧
      (Follows session (perform session request).1 state
          (vaultWorkspaceReducer state (.remapPaths map)) request.path newPath ↔
        NoneBelow state request.path ∧
          (InUse state request.path →
            ContentKept session.contents request.path newPath)) := by
  obtain ⟨segs, segs', hpath, rfl, hrelocates⟩ :=
    relocates_perform htree hnormal hexists hdispatch
  rw [hpath]
  refine ⟨ofSegments segs', rfl, hrelocates.contents, fun hfollows => ⟨?_, fun hpath => ?_⟩, ?_⟩
  · exact hrelocates.noneBelow_of_follows htree hopen hfollows
  · have hsame := hfollows.contents _ hpath
    rwa [remapPath, if_pos rfl, hrelocates.get?_contents_new (hopen _ hpath)] at hsame
  · rintro ⟨hnone, hkept⟩
    exact hrelocates.follows_of_noneBelow htree hopen hnone hkept

/-! ## A folder with an open file -/

def sampleSession : VaultFileSession where
  tree := sampleTree
  contents := .single ⟨"/a/x".toList, rfl⟩ "saved".toList
  languages := .single ⟨"/a/x".toList, rfl⟩ .text
  revision := 0

/-- The file in the folder is open and changed. -/
def sampleState : VaultWorkspaceState :=
  vaultWorkspaceReducer
    (vaultWorkspaceReducer createDefaultWorkspaceState (.openFile ⟨"/a/x".toList, rfl⟩))
    (.setEditorDraft ⟨"/a/x".toList, rfl⟩ "changed".toList)

theorem inUse_sample {path : TreePath} (h : InUse sampleState path) :
    path = ⟨"/a/x".toList, rfl⟩ := by
  rcases h with htab | hactive | hdraft | hmark
  · exact List.mem_singleton.mp htab
  · exact (Option.some.inj hactive).symm
  · exact List.mem_singleton.mp hdraft
  · exact List.mem_singleton.mp hmark

theorem open_sample (path : TreePath) (h : InUse sampleState path) :
    path ∈ collectFilePaths sampleSession.tree .root := by
  rw [inUse_sample h]
  decide

theorem dispatch_sample (name : List Char) (newPath : TreePath) (path : TreePath)
    (h : (perform sampleSession (.rename path name)).2 =
      [.treeMutated 1, .remapPaths (.single path newPath), .cancelRename]) :
    .remapPaths (.single path newPath) ∈ (perform sampleSession (.rename path name)).2 := by
  rw [h]
  exact List.mem_cons_of_mem _ List.mem_cons_self

/-- Renaming the file itself. -/
theorem follows_perform_sample : ∃ newPath,
    Follows sampleSession
      (perform sampleSession (.rename ⟨"/a/x".toList, rfl⟩ "z".toList)).1 sampleState
      (vaultWorkspaceReducer sampleState
        (.remapPaths (.single ⟨"/a/x".toList, rfl⟩ ⟨"/a/z".toList, rfl⟩)))
      ⟨"/a/x".toList, rfl⟩ newPath := by
  have hnormal : Normalized ⟨"/a/x".toList, rfl⟩ := by decide
  obtain ⟨newPath, hmap, -, hiff⟩ := @follows_perform_iff sampleSession sampleState
    (.rename ⟨"/a/x".toList, rfl⟩ "z".toList) _ isFileTree_sample open_sample hnormal nofun
    (dispatch_sample _ ⟨"/a/z".toList, rfl⟩ _ rfl)
  refine ⟨newPath, hiff.mpr ⟨⟨fun used hused _ => inUse_sample hused, ?_⟩, fun _ => ?_⟩⟩
  · exact List.forall_mem_singleton.mpr (by decide)
  · obtain rfl : ⟨"/a/z".toList, rfl⟩ = newPath :=
      (Prod.mk.inj (List.cons.inj (congrArg Record.entries hmap)).1).2
    rfl

/-- Renaming the folder leaves the tab and the draft at a path that is gone. -/
theorem not_follows_folder :
    IsFileTree sampleSession.tree ∧
      (∀ path, InUse sampleState path → path ∈ collectFilePaths sampleSession.tree .root) ∧
      .remapPaths (.single ⟨"/a".toList, rfl⟩ ⟨"/b".toList, rfl⟩) ∈
        (perform sampleSession (.rename ⟨"/a".toList, rfl⟩ "b".toList)).2 ∧
      ¬ Follows sampleSession
        (perform sampleSession (.rename ⟨"/a".toList, rfl⟩ "b".toList)).1 sampleState
        (vaultWorkspaceReducer sampleState
          (.remapPaths (.single ⟨"/a".toList, rfl⟩ ⟨"/b".toList, rfl⟩)))
        ⟨"/a".toList, rfl⟩ ⟨"/b".toList, rfl⟩ ∧
      ⟨"/a/x".toList, rfl⟩ ∈ (vaultWorkspaceReducer sampleState
          (.remapPaths (.single ⟨"/a".toList, rfl⟩ ⟨"/b".toList, rfl⟩))).editorDrafts.keys ∧
      ⟨"/a/x".toList, rfl⟩ ∉ collectFilePaths
        (perform sampleSession (.rename ⟨"/a".toList, rfl⟩ "b".toList)).1.tree .root := by
  refine ⟨isFileTree_sample, open_sample, dispatch_sample _ _ _ rfl, ?_, by decide, by decide⟩
  intro hfollows
  have htabs := hfollows.openTabs
  revert htabs
  decide

end Upriv.FileManager
