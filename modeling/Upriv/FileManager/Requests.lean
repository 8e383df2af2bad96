import Upriv.FileManager.Reducer
import Upriv.Shared.FileTree.Move
import Upriv.Shared.FileTree.Session

/-!
# Renames and moves in the file manager

`commitRename` and `movePath` of `hooks/useVaultFileManager.ts`: the file service does the
work, and the workspace is told which path has become which.
-/

namespace Upriv.FileManager

open FileTree
open NamedTree hiding node

/-- The session and the actions that are dispatched.  The messages that are shown are left
out. -/
def commitRename (session : VaultFileSession) (path : TreePath) (rawName : List Char) :
    VaultFileSession × List VaultWorkspaceAction :=
  let name := jsTrimChars rawName
  if (validateFileName name).isSome then (session, [.cancelRename])
  else if fileBaseName path = name then (session, [.cancelRename])
  else
    let parent := getParentPath path
    let siblings := (siblingNames session.tree parent).filter (· ≠ fileBaseName path)
    if name ∈ siblings then (session, [.cancelRename])
    else
      match renameVaultPath session path name with
      | none => (session, [])
      | some (newPath, session') =>
        (session', [.treeMutated session'.revision, .remapPaths (.single path newPath),
          .cancelRename])

def movePath (session : VaultFileSession) (fromPath toFolderPath : TreePath) :
    VaultFileSession × List VaultWorkspaceAction :=
  match moveVaultPath session fromPath toFolderPath with
  | none => (session, [])
  | some (newPath, session') =>
    if newPath = fromPath then (session', [])
    else (session', [.treeMutated session'.revision, .remapPaths (.single fromPath newPath)])

inductive FileRequest where
  | rename (path : TreePath) (rawName : List Char)
  | move (fromPath toFolderPath : TreePath)

namespace FileRequest

/-- The path of the file or the folder. -/
def path : FileRequest → TreePath
  | rename path _ => path
  | move fromPath _ => fromPath

def IsNormalized : FileRequest → Prop
  | rename path _ => Normalized path
  | move fromPath toFolderPath => Normalized fromPath ∧ Normalized toFolderPath

end FileRequest

def perform (session : VaultFileSession) :
    FileRequest → VaultFileSession × List VaultWorkspaceAction
  | .rename path rawName => commitRename session path rawName
  | .move fromPath toFolderPath => movePath session fromPath toFolderPath

/-! ## What an accepted request does -/

/-- The file or folder at `segs` gets the way `segs'`.  The service accepts the move of a
folder into itself, too: it changes the contents and leaves the tree. -/
structure Relocates (session session' : VaultFileSession) (segs segs' : List (List Char)) :
    Prop where
  names : ∀ s ∈ segs, IsFileName s
  names' : ∀ s ∈ segs', IsFileName s
  ne_nil : segs ≠ []
  ne_nil' : segs' ≠ []
  ne : segs ≠ segs'
  free : find segs' session.tree = none
  contents : session'.contents =
    remapContentPaths session.contents (ofSegments segs) (ofSegments segs')
  files : (∀ path, path ∈ collectFilePaths session'.tree .root ↔
      ∃ old ∈ collectFilePaths session.tree .root,
        remapPath (ofSegments segs) (ofSegments segs') old = path) ∨
    session'.tree = session.tree ∧ segs <+: segs'
  folder : segs <+: segs' → ofSegments segs ∉ collectFilePaths session.tree .root

section Requests

variable {session : VaultFileSession} {root : FileTreeNode} {ks : List (List Char)}
  {k k' : List Char} {node : FileTreeNode}

theorem renameNode_ofSegments (hks : ∀ s ∈ ks ++ [k], IsFileName s)
    (hnode : find (ks ++ [k]) root = some node) :
    renameNode root (ofSegments (ks ++ [k])) k' = modifyAt (rename k') (ks ++ [k]) root := by
  have hne : ofSegments (ks ++ [k]) ≠ .root := fun h =>
    List.append_ne_nil_of_right_ne_nil ks (List.cons_ne_nil k [])
      ((ofSegments_eq_root_iff hks).mp h)
  rw [renameNode, if_neg hne, findNode_ofSegments hks, hnode, segments_ofSegments hks]

theorem isFileTree_renameNode (h : IsFileTree root) (hks : ∀ s ∈ ks ++ [k], IsFileName s)
    (hk' : IsFileName k') (hnode : find (ks ++ [k]) root = some node)
    (hfree : find (ks ++ [k']) root = none) :
    IsFileTree (renameNode root (ofSegments (ks ++ [k])) k') := by
  rw [renameNode_ofSegments hks hnode]
  refine everywhere_renameAt h.siblingsDistinct hnode h ?_
  intro p front back hp hnames hlisting
  have hnew : k' ∉ p.children.map name := by
    rw [find_append, hp, Option.bind_some, find, Option.bind_eq_none_iff] at hfree
    rw [← find?_key_eq_none]
    cases hchild : p.children.find? (name · = k') with
    | none => rfl
    | some c => exact absurd (hfree c hchild) (Option.some_ne_none c)
  rw [hnames, List.mem_append, List.mem_cons, not_or, not_or] at hnew
  rw [hnames] at hlisting
  refine ⟨?_, ?_, ?_⟩
  · have hnodup := hlisting.nodup
    rw [List.nodup_middle, List.nodup_cons] at hnodup ⊢
    refine ⟨?_, hnodup.2⟩
    rw [List.mem_append, not_or]
    exact ⟨hnew.1, hnew.2.2⟩
  · intro s hs
    rw [List.mem_append, List.mem_cons] at hs
    rcases hs with hs | rfl | hs
    · exact hlisting.fileNames s (List.mem_append_left _ hs)
    · exact hk'
    · exact hlisting.fileNames s (List.mem_append_right _ (List.mem_cons_of_mem _ hs))
  · intro hfile
    exact absurd (hlisting.file hfile) (List.append_ne_nil_of_right_ne_nil _
      (List.cons_ne_nil _ _))

/-- The names at a place of the tree are those that can be found there. -/
theorem find_eq_none_of_not_mem {p : FileTreeNode} (hp : find ks root = some p)
    (h : k ∉ p.children.map name) : find (ks ++ [k]) root = none := by
  rw [find_append, hp, Option.bind_some, find, find?_key_eq_none.mpr h]
  rfl

theorem siblingNames_ofSegments (hks : ∀ s ∈ ks, IsFileName s) {p : FileTreeNode}
    (hp : find ks root = some p) : siblingNames root (ofSegments ks) = p.children.map name := by
  rw [siblingNames, findNode_ofSegments hks, hp]

theorem relocates_renameVaultPath (h : IsFileTree session.tree)
    (hks : ∀ s ∈ ks ++ [k], IsFileName s) (hnode : find (ks ++ [k]) session.tree = some node)
    (hk' : IsFileName k') (hne : k ≠ k')
    {newPath : TreePath} {session' : VaultFileSession}
    (hrename : renameVaultPath session (ofSegments (ks ++ [k])) k' = some (newPath, session')) :
    newPath = ofSegments (ks ++ [k']) ∧ Relocates session session' (ks ++ [k]) (ks ++ [k']) := by
  have hnames := hks
  rw [List.forall_mem_append, List.forall_mem_singleton] at hnames
  have hsegs : ks ++ [k] ≠ [] := List.append_ne_nil_of_right_ne_nil ks (List.cons_ne_nil k [])
  have hsegs' : ks ++ [k'] ≠ [] := List.append_ne_nil_of_right_ne_nil ks (List.cons_ne_nil k' [])
  have hnew := forall_mem_append_singleton hnames.1 hk'
  have hfound := hnode
  rw [find_append] at hfound
  obtain ⟨p, hp, -⟩ := Option.bind_eq_some_iff.mp hfound
  simp only [renameVaultPath, fileBaseName_ofSegments hnames.1 hnames.2,
    getParentPath_ofSegments hnames.1 hnames.2, siblingNames_ofSegments hnames.1 hp,
    joinPath_ofSegments hnames.1] at hrename
  rw [if_neg fun heq => hsegs ((ofSegments_eq_root_iff hks).mp heq)] at hrename
  split at hrename
  · cases hrename
  · rename_i hclash
    cases hrename
    have hfree : find (ks ++ [k']) session.tree = none := by
      refine find_eq_none_of_not_mem hp fun hmem => hclash ?_
      exact List.mem_filter.mpr ⟨hmem, decide_eq_true hne.symm⟩
    have hresult := isFileTree_renameNode h hks hk' hnode hfree
    have hother : ks ++ [k] ≠ ks ++ [k'] :=
      fun heq => hne (List.cons.inj (List.append_cancel_left heq)).1
    refine ⟨rfl, hks, hnew, hsegs, hsegs', hother, hfree, rfl, .inl fun path => ?_,
      fun hbegin => ?_⟩
    · rw [renameNode_ofSegments hks hnode] at hresult ⊢
      rw [(collectFilePaths_of_entries_perm h hresult hks hsegs hsegs'
        (entries_renameAt h.siblingsDistinct hnode k')).mem_iff, List.mem_map]
    · exact absurd (hbegin.eq_of_length (by simp)) hother

theorem commitRename_cases {path : TreePath} {rawName : List Char} {map : Record TreePath TreePath}
    (hdispatch : .remapPaths map ∈ (commitRename session path rawName).2) :
    validateFileName (jsTrimChars rawName) = none ∧ fileBaseName path ≠ jsTrimChars rawName ∧
      ∃ newPath, renameVaultPath session path (jsTrimChars rawName) =
        some (newPath, (commitRename session path rawName).1) ∧ map = .single path newPath := by
  simp only [commitRename] at hdispatch ⊢
  split at hdispatch
  · simp at hdispatch
  · rename_i hvalid
    rw [if_neg hvalid]
    split at hdispatch
    · simp at hdispatch
    · rename_i hother
      rw [if_neg hother]
      split at hdispatch
      · simp at hdispatch
      · rename_i hclash
        rw [if_neg hclash]
        split at hdispatch
        · cases hdispatch
        · rename_i newPath session' hrename
          refine ⟨by simpa using hvalid, hother, newPath, hrename, ?_⟩
          simpa using hdispatch

/-- A move that the service accepts and that is not to the folder where the node is. -/
theorem relocates_moveVaultPath (h : IsFileTree session.tree) {ls : List (List Char)}
    (hks : ∀ s ∈ ks ++ [k], IsFileName s) (hls : ∀ s ∈ ls, IsFileName s)
    {newPath : TreePath} {session' : VaultFileSession}
    (hmove : moveVaultPath session (ofSegments (ks ++ [k])) (ofSegments ls) =
      some (newPath, session')) (hother : newPath ≠ ofSegments (ks ++ [k])) :
    newPath = ofSegments (ls ++ [k]) ∧ Relocates session session' (ks ++ [k]) (ls ++ [k]) := by
  have hnames := hks
  rw [List.forall_mem_append, List.forall_mem_singleton] at hnames
  have hsegs : ks ++ [k] ≠ [] := List.append_ne_nil_of_right_ne_nil ks (List.cons_ne_nil k [])
  have hsegs' : ls ++ [k] ≠ [] := List.append_ne_nil_of_right_ne_nil ls (List.cons_ne_nil k [])
  rw [moveVaultPath, findNode_ofSegments hks, findNode_ofSegments hls,
    getParentPath_ofSegments hnames.1 hnames.2] at hmove
  split at hmove
  · cases hmove
  · rename_i hstart
    rw [not_or, ofSegments_inj hks hls] at hstart
    split at hmove
    · cases hmove
    · rename_i node hnode
      simp only [name_of_find_append_singleton hnode, joinPath_ofSegments hls] at hmove
      split at hmove
      · cases hmove
      · rename_i hfolder
        rw [not_not, Option.map_eq_some_iff] at hfolder
        obtain ⟨target, htarget, hfolder⟩ := hfolder
        split at hmove
        · cases hmove
          exact absurd rfl hother
        · rename_i hparent
          rw [siblingNames_ofSegments hls htarget] at hmove
          split at hmove
          · cases hmove
          · rename_i hclash
            cases hmove
            have hlsks : ls ≠ ks := fun heq => hparent (congrArg ofSegments heq.symm)
            have hne : ks ++ [k] ≠ ls ++ [k] :=
              fun heq => hlsks (List.append_cancel_right heq).symm
            refine ⟨rfl, hks, forall_mem_append_singleton hls hnames.2, hsegs, hsegs', hne,
              find_eq_none_of_not_mem htarget hclash, rfl, ?_, fun hbegin hfile => ?_⟩
            · by_cases hbelow : ks ++ [k] <+: ls
              · have hdescendant := (isDescendantPath_ofSegments hks hls hsegs).mpr hbelow
                have hpreserves := moveNode_preserves h (normalized_ofSegments hks)
                  (normalized_ofSegments hls)
                exact .inr ⟨hpreserves.refused hdescendant, hbelow.trans (List.prefix_append _ _)⟩
              · have hmovable : Movable ks k ls node target session.tree :=
                  ⟨h.siblingsDistinct, hnode, htarget, hbelow, fun _ => hclash⟩
                have hresult := isFileTree_moveAt h hnames.2 hmovable hfolder
                refine .inl fun path => ?_
                rw [moveNode_of_movable hks hls hmovable hfolder,
                  (collectFilePaths_of_entries_perm h hresult hks hsegs hsegs'
                    hmovable.entries_moveAt).mem_iff, List.mem_map]
            · have hbelow : ks ++ [k] <+: ls := (List.prefix_concat_iff.mp hbegin).resolve_left hne
              obtain ⟨way, file, hway, heq, hfile, hlabel⟩ := (mem_collectFilePaths_iff h).mp hfile
              rw [ofSegments_inj hks hway] at heq
              subst heq
              obtain ⟨rest, rfl⟩ := hbelow
              rw [find_append, hfile, Option.bind_some] at htarget
              have hleaf := (everywhere_iff.mp (h.of_find hfile)).1.file hlabel
              cases rest with
              | nil => exact hstart.2 (List.append_nil _).symm
              | cons s rest =>
                rw [find, List.map_eq_nil_iff.mp hleaf] at htarget
                cases htarget

theorem movePath_cases {fromPath toFolderPath : TreePath} {map : Record TreePath TreePath}
    (hdispatch : .remapPaths map ∈ (movePath session fromPath toFolderPath).2) :
    ∃ newPath, moveVaultPath session fromPath toFolderPath =
        some (newPath, (movePath session fromPath toFolderPath).1) ∧ newPath ≠ fromPath ∧
      map = .single fromPath newPath := by
  rw [movePath] at hdispatch ⊢
  split at hdispatch
  · cases hdispatch
  · rename_i newPath session' hmove
    split at hdispatch
    · cases hdispatch
    · rename_i hother
      rw [if_neg hother]
      exact ⟨newPath, hmove, hother, by simpa using hdispatch⟩

/-- What is dispatched names the path of the request and its new one. -/
theorem relocates_perform (h : IsFileTree session.tree) {request : FileRequest}
    (hnormal : request.IsNormalized) (hexists : findNode session.tree request.path ≠ none)
    {map : Record TreePath TreePath} (hdispatch : .remapPaths map ∈ (perform session request).2) :
    ∃ segs segs', request.path = ofSegments segs ∧ map = .single request.path (ofSegments segs') ∧
      Relocates session (perform session request).1 segs segs' := by
  have hsplit : ∀ {path : TreePath}, Normalized path → path ≠ .root →
      ∃ ks k, (∀ s ∈ ks ++ [k], IsFileName s) ∧ path = ofSegments (ks ++ [k]) := by
    intro path hpath hroot
    obtain ⟨segs, hsegs, rfl⟩ := hpath.exists_segments
    rcases List.eq_nil_or_concat segs with rfl | ⟨ks, k, rfl⟩
    · exact absurd rfl hroot
    · rw [List.concat_eq_append] at hsegs ⊢
      exact ⟨ks, k, hsegs, rfl⟩
  cases request with
  | rename path rawName =>
    obtain ⟨hvalid, hother, newPath, hrename, rfl⟩ := commitRename_cases hdispatch
    have hroot : path ≠ .root := by
      rintro rfl
      rw [renameVaultPath, if_pos rfl] at hrename
      cases hrename
    obtain ⟨ks, k, hks, rfl⟩ := hsplit hnormal hroot
    have hnames := hks
    rw [List.forall_mem_append, List.forall_mem_singleton] at hnames
    obtain ⟨node, hnode⟩ := Option.ne_none_iff_exists'.mp hexists
    rw [FileRequest.path, findNode_ofSegments hks] at hnode
    have hname := isFileName_of_validateFileName hvalid
    rw [jsTrimChars_jsTrimChars] at hname
    rw [fileBaseName_ofSegments hnames.1 hnames.2] at hother
    obtain ⟨rfl, hrelocates⟩ := relocates_renameVaultPath h hks hnode hname hother hrename
    exact ⟨_, _, rfl, rfl, hrelocates⟩
  | move fromPath toFolderPath =>
    obtain ⟨newPath, hmove, hother, rfl⟩ := movePath_cases hdispatch
    have hroot : fromPath ≠ .root := by
      rintro rfl
      rw [moveVaultPath, if_pos (.inl rfl)] at hmove
      cases hmove
    obtain ⟨ks, k, hks, rfl⟩ := hsplit hnormal.1 hroot
    obtain ⟨ls, hls, rfl⟩ := hnormal.2.exists_segments
    obtain ⟨rfl, hrelocates⟩ := relocates_moveVaultPath h hks hls hmove hother
    exact ⟨_, _, rfl, rfl, hrelocates⟩

end Requests

end Upriv.FileManager
