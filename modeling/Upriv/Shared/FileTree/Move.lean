import Upriv.Shared.FileTree.Tree

/-!
# Moving a node

`moveNode` keeps the nodes and every other subtree, and the file paths change as the keys
of the contents do.
-/

namespace Upriv.FileTree

open NamedTree hiding node

section MoveNode

variable {root node target : FileTreeNode} {ks ls : List (List Char)} {k : List Char}
  {fromPath toFolderPath : TreePath}

theorem removeNode_ofSegments (hks : ∀ s ∈ ks ++ [k], IsFileName s)
    (hnode : find (ks ++ [k]) root = some node) :
    removeNode root (ofSegments (ks ++ [k])) = modifyAt (removeChild k) ks root := by
  rw [List.forall_mem_append, List.forall_mem_singleton] at hks
  have hne : ofSegments (ks ++ [k]) ≠ .root := fun h =>
    List.append_ne_nil_of_right_ne_nil ks (List.cons_ne_nil k [])
      ((ofSegments_eq_root_iff (forall_mem_append_singleton hks.1 hks.2)).mp h)
  rw [find_append] at hnode
  obtain ⟨parent, hparent, -⟩ := Option.bind_eq_some_iff.mp hnode
  rw [removeNode, if_neg hne, getParentPath_ofSegments hks.1 hks.2,
    fileBaseName_ofSegments hks.1 hks.2, findNode_ofSegments hks.1, hparent,
    segments_ofSegments hks.1]

theorem moveNode_of_movable (hks : ∀ s ∈ ks ++ [k], IsFileName s) (hls : ∀ s ∈ ls, IsFileName s)
    (hmovable : Movable ks k ls node target root) (hfolder : target.label = .folder) :
    moveNode root (ofSegments (ks ++ [k])) (ofSegments ls) = moveAt ks k ls node root := by
  have hnames := hks
  rw [List.forall_mem_append, List.forall_mem_singleton] at hnames
  have hne : ks ++ [k] ≠ [] := List.append_ne_nil_of_right_ne_nil ks (List.cons_ne_nil k [])
  have hbelow : ¬ isDescendantPath (ofSegments (ks ++ [k])) (ofSegments ls) = true := by
    rw [isDescendantPath_ofSegments hks hls hne]
    exact hmovable.notBelow
  have hstart : ¬ (ofSegments (ks ++ [k]) = .root ∨ ofSegments (ks ++ [k]) = ofSegments ls) := by
    rw [ofSegments_eq_root_iff hks, ofSegments_inj hks hls, not_or]
    exact ⟨hne, fun heq => hmovable.notBelow (heq ▸ List.prefix_refl _)⟩
  have hclash : ¬ (node.name ∈ target.children.map name ∧ ofSegments ks ≠ ofSegments ls) := by
    rintro ⟨hmem, hother⟩
    rw [hmovable.name_eq] at hmem
    exact hmovable.free (fun heq => hother (congrArg ofSegments heq.symm)) hmem
  obtain ⟨target', htarget', hkept, -⟩ := hmovable.exists_target
  rw [moveNode, if_neg hstart, if_neg hbelow, findNode_ofSegments hks, hmovable.found,
    findNode_ofSegments hls, hmovable.foundTarget, getParentPath_ofSegments hnames.1 hnames.2]
  simp only [if_neg (not_not.mpr hfolder), if_neg hclash]
  rw [removeNode_ofSegments hks hmovable.found, addChild, findNode_ofSegments hls, htarget',
    segments_ofSegments hls]
  exact if_neg (not_not.mpr (hkept.label.trans hfolder))

/-- What `moveNode` does: nothing, or it moves the subtree to a folder where it can be. -/
theorem moveNode_cases (h : IsFileTree root) (hks : ∀ s ∈ ks ++ [k], IsFileName s)
    (hls : ∀ s ∈ ls, IsFileName s) :
    moveNode root (ofSegments (ks ++ [k])) (ofSegments ls) = root ∨
      ∃ node target, Movable ks k ls node target root ∧ target.label = .folder ∧
        moveNode root (ofSegments (ks ++ [k])) (ofSegments ls) = moveAt ks k ls node root := by
  have hnames := hks
  rw [List.forall_mem_append, List.forall_mem_singleton] at hnames
  have hne : ks ++ [k] ≠ [] := List.append_ne_nil_of_right_ne_nil ks (List.cons_ne_nil k [])
  by_cases hexists : ∃ node target, Movable ks k ls node target root ∧ target.label = .folder
  · obtain ⟨node, target, hmovable, hfolder⟩ := hexists
    exact .inr ⟨node, target, hmovable, hfolder, moveNode_of_movable hks hls hmovable hfolder⟩
  · left
    unfold moveNode
    rw [findNode_ofSegments hks, findNode_ofSegments hls,
      getParentPath_ofSegments hnames.1 hnames.2]
    repeat' split
    all_goals try rfl
    rename_i hbelow _ node hnode _ target htarget hfolder hclash
    rw [isDescendantPath_ofSegments hks hls hne] at hbelow
    refine absurd ⟨node, target, ⟨h.siblingsDistinct, hnode, htarget, hbelow, ?_⟩,
      not_not.mp hfolder⟩ hexists
    intro hlsks hk
    refine hclash ⟨?_, fun heq => hlsks ((ofSegments_inj hnames.1 hls).mp heq).symm⟩
    rw [name_of_find_append_singleton hnode]
    exact hk

theorem isFileTree_moveAt (h : IsFileTree root) (hk : IsFileName k)
    (hmovable : Movable ks k ls node target root) (hfolder : target.label = .folder) :
    IsFileTree (moveAt ks k ls node root) := by
  refine hmovable.everywhere_moveAt h ?_ ?_
  · intro type names names' hsub hlisting
    refine ⟨hlisting.nodup.sublist hsub, fun s hs => hlisting.fileNames s (hsub.subset hs), ?_⟩
    intro hfile
    rw [hlisting.file hfile] at hsub
    exact List.sublist_nil.mp hsub
  · intro names hfree hlisting
    rw [hfolder] at hlisting ⊢
    refine ⟨?_, forall_mem_append_singleton hlisting.fileNames hk, nofun⟩
    rw [List.nodup_append]
    refine ⟨hlisting.nodup, List.nodup_singleton k, ?_⟩
    rintro _ hmem _ hk rfl
    exact hfree (List.mem_singleton.mp hk ▸ hmem)

/-- The entries of a tree change as the paths of its files do. -/
theorem collectFilePaths_of_entries_perm {result : FileTreeNode} {ks' : List (List Char)}
    (h : IsFileTree root) (hresult : IsFileTree result) (hks : ∀ s ∈ ks, IsFileName s)
    (hne : ks ≠ []) (hne' : ks' ≠ [])
    (hperm : (entries result).Perm
      ((entries root).map fun e => (replacePrefix ks ks' e.1, e.2))) :
    (collectFilePaths result .root).Perm
      ((collectFilePaths root .root).map (remapPath (ofSegments ks) (ofSegments ks'))) := by
  rw [← ofSegments_nil, collectFilePaths_ofSegments h (List.forall_mem_nil _),
    collectFilePaths_ofSegments hresult (List.forall_mem_nil _)]
  refine ((hperm.filter _).map _).trans (List.Perm.of_eq ?_)
  rw [List.filter_map, List.map_map, List.map_map]
  refine List.map_congr_left fun e he => ?_
  have hnames := h.fileNames_of_mem_entries (List.mem_of_mem_filter he)
  rw [Function.comp_apply, Function.comp_apply, List.nil_append, List.nil_append,
    remapPath_ofSegments hks hnames hne hne']

end MoveNode

/-! ## The move as a whole -/

/-- What a move from one path into a folder makes of a tree. -/
structure MovePreserves (root result : FileTreeNode) (fromPath toFolderPath : TreePath) : Prop where
  fileTree : IsFileTree result
  nodes : (nodes result).Perm (nodes root)
  /-- A folder is not moved into itself. -/
  refused : isDescendantPath fromPath toFolderPath = true → result = root
  /-- No node is found again below itself. -/
  acyclic : ∀ path node way, findNode result path = some node → way ≠ [] →
    find way node ≠ some node
  /-- Every subtree but the moved one: it is the same, unless the moved one was or is in
  it. -/
  frame : ∀ path node, Normalized path → isDescendantPath fromPath path = false →
    findNode root path = some node →
    ∃ node', findNode result path = some node' ∧ node'.name = node.name ∧
      node'.label = node.label ∧
      (isDescendantPath path fromPath = false → isDescendantPath path toFolderPath = false →
        node' = node)
  moved : result ≠ root → ∃ node, findNode root fromPath = some node ∧
    findNode result (joinPath toFolderPath node.name) = some node ∧
    (∀ path, path ∈ collectFilePaths result .root ↔ ∃ old ∈ collectFilePaths root .root,
      remapPath fromPath (joinPath toFolderPath node.name) old = path) ∧
    ∀ contents : Record TreePath (List Char),
      (∀ path, path ∈ contents.keys ↔ path ∈ collectFilePaths root .root) →
      ∀ path, path ∈
          (remapContentPaths contents fromPath (joinPath toFolderPath node.name)).keys ↔
        path ∈ collectFilePaths result .root

theorem movePreserves_self {root : FileTreeNode} (h : IsFileTree root)
    (fromPath toFolderPath : TreePath) : MovePreserves root root fromPath toFolderPath where
  fileTree := h
  nodes := List.Perm.refl _
  refused _ := rfl
  acyclic _ node _ _ hway := find_ne_self hway node
  frame _ node _ _ hnode := ⟨node, hnode, rfl, rfl, fun _ _ => rfl⟩
  moved hne := absurd rfl hne

/-- The keys of the contents are mapped as the file paths are. -/
theorem mem_keys_remapContentPaths {contents : Record TreePath (List Char)}
    {fromPrefix toPrefix path : TreePath} :
    path ∈ (remapContentPaths contents fromPrefix toPrefix).keys ↔
      ∃ old ∈ contents.keys, remapPath fromPrefix toPrefix old = path :=
  Record.mem_keys_mapKeys

theorem movePreserves_moveAt {root node target : FileTreeNode} {ks ls : List (List Char)}
    {k : List Char} (h : IsFileTree root) (hks : ∀ s ∈ ks ++ [k], IsFileName s)
    (hls : ∀ s ∈ ls, IsFileName s) (hmovable : Movable ks k ls node target root)
    (hfolder : target.label = .folder) :
    MovePreserves root (moveAt ks k ls node root) (ofSegments (ks ++ [k])) (ofSegments ls) := by
  have hnames := hks
  rw [List.forall_mem_append, List.forall_mem_singleton] at hnames
  have hne : ks ++ [k] ≠ [] := List.append_ne_nil_of_right_ne_nil ks (List.cons_ne_nil k [])
  have hne' : ls ++ [k] ≠ [] := List.append_ne_nil_of_right_ne_nil ls (List.cons_ne_nil k [])
  have hnew := forall_mem_append_singleton hls hnames.2
  have hresult := isFileTree_moveAt h hnames.2 hmovable hfolder
  have hfiles : ∀ path, path ∈ collectFilePaths (moveAt ks k ls node root) .root ↔
      ∃ old ∈ collectFilePaths root .root,
        remapPath (ofSegments (ks ++ [k])) (ofSegments (ls ++ [k])) old = path := by
    intro path
    rw [(collectFilePaths_of_entries_perm h hresult hks hne hne' hmovable.entries_moveAt).mem_iff,
      List.mem_map]
  have hto : joinPath (ofSegments ls) node.name = ofSegments (ls ++ [k]) := by
    rw [hmovable.name_eq, joinPath_ofSegments hls]
  refine ⟨hresult, hmovable.nodes_moveAt, ?_, fun _ node _ _ hway => find_ne_self hway node, ?_, ?_⟩
  · intro hbelow
    exact absurd ((isDescendantPath_ofSegments hks hls hne).mp hbelow) hmovable.notBelow
  · intro path u hpath hnot hu
    obtain ⟨way, hway, rfl⟩ := hpath.exists_segments
    rw [← Bool.not_eq_true, isDescendantPath_ofSegments hks hway hne] at hnot
    rw [findNode_ofSegments hway] at hu ⊢
    obtain ⟨u', hu', hname, hlabel, heq⟩ := find_moveAt_kept hnot hu
    refine ⟨u', hu', hname, hlabel, fun habove habove' => ?_⟩
    cases way with
    | nil =>
      rw [ofSegments_nil, isDescendantPath, if_pos rfl, decide_eq_false_iff_not, not_not,
        ofSegments_eq_root_iff hks] at habove
      exact absurd habove hne
    | cons s way =>
      have hne : s :: way ≠ [] := List.cons_ne_nil s way
      rw [← Bool.not_eq_true, isDescendantPath_ofSegments hway hks hne] at habove
      rw [← Bool.not_eq_true, isDescendantPath_ofSegments hway hls hne] at habove'
      exact heq (fun hbegin => habove (hbegin.trans (List.prefix_append ks [k]))) habove'
  · intro _
    rw [findNode_ofSegments hks]
    refine ⟨node, hmovable.found, ?_, ?_, ?_⟩
    · rw [hto, findNode_ofSegments hnew]
      exact hmovable.find_moveAt_moved
    · rw [hto]
      exact hfiles
    · intro contents hcontents path
      rw [hto, mem_keys_remapContentPaths, hfiles]
      simp only [hcontents]

/-- Every move of a file tree, from any path into any folder. -/
theorem moveNode_preserves {root : FileTreeNode} {fromPath toFolderPath : TreePath}
    (h : IsFileTree root) (hfrom : Normalized fromPath) (hto : Normalized toFolderPath) :
    MovePreserves root (moveNode root fromPath toFolderPath) fromPath toFolderPath := by
  obtain ⟨segs, hsegs, rfl⟩ := hfrom.exists_segments
  obtain ⟨ls, hls, rfl⟩ := hto.exists_segments
  rcases List.eq_nil_or_concat segs with rfl | ⟨ks, k, rfl⟩
  · have hroot : moveNode root (ofSegments []) (ofSegments ls) = root := if_pos (.inl rfl)
    rw [hroot]
    exact movePreserves_self h _ _
  · rw [List.concat_eq_append] at hsegs ⊢
    rcases moveNode_cases h hsegs hls with hsame | ⟨node, target, hmovable, hfolder, hmoved⟩
    · rw [hsame]
      exact movePreserves_self h _ _
    · rw [hmoved]
      exact movePreserves_moveAt h hsegs hls hmovable hfolder

/-- Two folders, the name of one the beginning of the other's, with a file each. -/
def sampleTree : FileTreeNode :=
  .node [] .folder
    [.node "a".toList .folder [.node "x".toList .file []],
     .node "ab".toList .folder [.node "y".toList .file []]]

theorem isFileTree_sample : IsFileTree sampleTree := by
  have hfile : ∀ name, IsFileTree (.node name .file []) := fun name =>
    .node (by decide) (List.forall_mem_nil _)
  refine .node (by decide) (List.forall_mem_cons.mpr ⟨?_, List.forall_mem_singleton.mpr ?_⟩)
  · exact .node (by decide) (List.forall_mem_singleton.mpr (hfile _))
  · exact .node (by decide) (List.forall_mem_singleton.mpr (hfile _))

theorem moveNode_preserves_sample :
    MovePreserves sampleTree (moveNode sampleTree ⟨"/a".toList, rfl⟩ ⟨"/ab".toList, rfl⟩)
        ⟨"/a".toList, rfl⟩ ⟨"/ab".toList, rfl⟩ ∧
      collectFilePaths (moveNode sampleTree ⟨"/a".toList, rfl⟩ ⟨"/ab".toList, rfl⟩) .root =
        [⟨"/ab/y".toList, rfl⟩, ⟨"/ab/a/x".toList, rfl⟩] :=
  ⟨moveNode_preserves isFileTree_sample (by decide) (by decide), by decide⟩

end Upriv.FileTree
