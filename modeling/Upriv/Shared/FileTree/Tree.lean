import Upriv.Shared.FileTree.Paths
import Upriv.Support.Record

/-!
# File trees

`domain/file-tree/treeUtils.ts` and `treeOps.ts`: nodes are found by their names, and a
change is made in a clone of the tree, which is the tree itself where values do not
change.
-/

namespace Upriv.FileTree

open NamedTree hiding node

inductive FileTreeNodeType where
  | file
  | folder
  deriving DecidableEq, Repr

/-- The label of a node is its `type`.  A node without `children` has the empty list of
them, which every reader of a missing one takes. -/
abbrev FileTreeNode := NamedTree (List Char) FileTreeNodeType

def findNode (root : FileTreeNode) (path : TreePath) : Option FileTreeNode :=
  if path = .root then some root else find path.segments root

def siblingNames (root : FileTreeNode) (parentPath : TreePath) : List (List Char) :=
  match findNode root parentPath with
  | none => []
  | some parent => parent.children.map name

def addChild (root : FileTreeNode) (parentPath : TreePath) (child : FileTreeNode) :
    FileTreeNode :=
  match findNode root parentPath with
  | none => root
  | some parent =>
    if parent.label ≠ .folder then root
    else modifyAt (appendChild child) parentPath.segments root

def removeNode (root : FileTreeNode) (path : TreePath) : FileTreeNode :=
  if path = .root then root
  else
    match findNode root (getParentPath path) with
    | none => root
    | some _ => modifyAt (removeChild (fileBaseName path)) (getParentPath path).segments root

def renameNode (root : FileTreeNode) (path : TreePath) (newName : List Char) : FileTreeNode :=
  if path = .root then root
  else
    match findNode root path with
    | none => root
    | some _ => modifyAt (rename newName) path.segments root

def moveNode (root : FileTreeNode) (fromPath toFolderPath : TreePath) : FileTreeNode :=
  if fromPath = .root ∨ fromPath = toFolderPath then root
  else if isDescendantPath fromPath toFolderPath then root
  else
    match findNode root fromPath with
    | none => root
    | some node =>
      match findNode root toFolderPath with
      | none => root
      | some targetParent =>
        if targetParent.label ≠ .folder then root
        else if node.name ∈ targetParent.children.map name ∧
            getParentPath fromPath ≠ toFolderPath then root
        else addChild (removeNode root fromPath) toFolderPath node

mutual

def collectFilePaths : FileTreeNode → TreePath → List TreePath
  | .node _ .file _, base => [base]
  | .node _ .folder children, base => collectChildrenPaths children base

/-- The `flatMap` over the children. -/
def collectChildrenPaths : List FileTreeNode → TreePath → List TreePath
  | [], _ => []
  | child :: children, base =>
    collectFilePaths child (joinPath base child.name) ++ collectChildrenPaths children base

end

def remapContentPaths (contents : Record TreePath (List Char)) (fromPrefix toPrefix : TreePath) :
    Record TreePath (List Char) :=
  contents.mapKeys (remapPath fromPrefix toPrefix)

/-! ## Well-formed trees -/

/-- The names below a node: no two are the same, all can stand in a path, and a file has
none. -/
structure IsListing (type : FileTreeNodeType) (names : List (List Char)) : Prop where
  nodup : names.Nodup
  fileNames : ∀ name ∈ names, IsFileName name
  file : type = .file → names = []

instance (type : FileTreeNodeType) (names : List (List Char)) : Decidable (IsListing type names) :=
  decidable_of_iff
    (names.Nodup ∧ (∀ name ∈ names, IsFileName name) ∧ (type = .file → names = []))
    ⟨fun h => ⟨h.1, h.2.1, h.2.2⟩, fun h => ⟨h.nodup, h.fileNames, h.file⟩⟩

def IsFileTree (root : FileTreeNode) : Prop := Everywhere IsListing root

theorem IsFileTree.siblingsDistinct {root : FileTreeNode} (h : IsFileTree root) :
    SiblingsDistinct root := h.mono fun _ _ => IsListing.nodup

section Segments

variable {root node : FileTreeNode} {segs : List (List Char)}

theorem findNode_ofSegments (h : ∀ s ∈ segs, IsFileName s) (root : FileTreeNode) :
    findNode root (ofSegments segs) = find segs root := by
  rw [findNode]
  split
  · rename_i hroot
    rw [(ofSegments_eq_root_iff h).mp hroot]
    rfl
  · rw [segments_ofSegments h]

/-- The way to every node of a file tree is a path. -/
theorem IsFileTree.fileNames_of_mem_entries (h : IsFileTree root)
    {e : List (List Char) × FileTreeNodeType} (he : e ∈ entries root) :
    ∀ s ∈ e.1, IsFileName s := by
  induction h generalizing e with
  | @node n l cs hlisting hall ih =>
    rw [entries, List.mem_cons, mem_childEntries] at he
    rcases he with rfl | ⟨c, hc, e, he, rfl⟩
    · exact List.forall_mem_nil _
    · have hname := hlisting.fileNames c.name (List.mem_map_of_mem hc)
      exact List.forall_mem_cons.mpr ⟨hname, ih c hc he⟩

/-- The paths of the files, below a base. -/
theorem collectFilePaths_ofSegments (h : IsFileTree root) {base : List (List Char)}
    (hbase : ∀ s ∈ base, IsFileName s) :
    collectFilePaths root (ofSegments base) =
      ((entries root).filter (·.2 = .file)).map fun e => ofSegments (base ++ e.1) := by
  induction h generalizing base with
  | @node n l cs hlisting hall ih =>
    rw [entries]
    cases l with
    | file =>
      have hcs : cs = [] := List.map_eq_nil_iff.mp (hlisting.file rfl)
      subst hcs
      rw [collectFilePaths, childEntries, List.filter_cons_of_pos rfl, List.filter_nil,
        List.map_singleton, List.append_nil]
    | folder =>
      rw [collectFilePaths, List.filter_cons_of_neg (by decide)]
      have hnames : ∀ c ∈ cs, IsFileName c.name := fun c hc =>
        hlisting.fileNames c.name (List.mem_map_of_mem hc)
      clear hall hlisting
      induction cs with
      | nil => rfl
      | cons c cs ihcs =>
        rw [List.forall_mem_cons] at hnames
        rw [collectChildrenPaths, childEntries, List.filter_append, List.map_append,
          joinPath_ofSegments hbase,
          ih c List.mem_cons_self (forall_mem_append_singleton hbase hnames.1),
          ihcs (fun c hc => ih c (List.mem_cons_of_mem _ hc)) hnames.2, List.filter_map,
          List.map_map]
        congr 1
        refine List.map_congr_left fun e _ => ?_
        rw [Function.comp_apply, under, List.append_assoc]

theorem mem_collectFilePaths_iff (h : IsFileTree root) {path : TreePath} :
    path ∈ collectFilePaths root .root ↔
      ∃ way node, (∀ s ∈ way, IsFileName s) ∧ path = ofSegments way ∧
        find way root = some node ∧ node.label = .file := by
  rw [← ofSegments_nil, collectFilePaths_ofSegments h (List.forall_mem_nil _), List.mem_map]
  constructor
  · rintro ⟨⟨way, type⟩, he, rfl⟩
    obtain ⟨hentry, htype⟩ := List.mem_filter.mp he
    obtain ⟨node, hnode, hlabel⟩ := (mem_entries_iff h.siblingsDistinct).mp hentry
    exact ⟨way, node, h.fileNames_of_mem_entries hentry, rfl, hnode,
      hlabel.trans (of_decide_eq_true htype)⟩
  · rintro ⟨way, node, -, rfl, hnode, hlabel⟩
    have hentry := (mem_entries_iff h.siblingsDistinct).mpr ⟨node, hnode, hlabel⟩
    exact ⟨(way, .file), List.mem_filter.mpr ⟨hentry, rfl⟩, rfl⟩

end Segments

end Upriv.FileTree
