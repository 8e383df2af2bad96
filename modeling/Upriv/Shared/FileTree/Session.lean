import Upriv.Paths.MountPoint
import Upriv.Shared.FileTree.Tree

/-!
# The files of an open vault

`validateFileName` of `domain/file-tree/fileNameValidation.ts`, and the renames and moves of
the file service, `testing/fileSystem.ts`.
-/

namespace Upriv.FileTree

open NamedTree hiding node

/-- `null` is `none`. -/
def validateFileName (name : List Char) : Option DisplayNameValidationCode :=
  let trimmed := jsTrimChars name
  if trimmed = [] then some .empty
  else if trimmed = ".".toList ∨ trimmed = "..".toList then some .invalidChars
  else validateDisplayName (String.ofList trimmed)

inductive VaultFileLanguage where
  | markdown
  | text
  | shell
  | env
  | image
  | binary
  deriving DecidableEq, Repr

structure VaultFileSession where
  tree : FileTreeNode
  contents : Record TreePath (List Char)
  languages : Record TreePath VaultFileLanguage
  revision : ℕ

/-- The path that the service returns, with the session it leaves. -/
def renameVaultPath (session : VaultFileSession) (path : TreePath) (newName : List Char) :
    Option (TreePath × VaultFileSession) :=
  if path = .root then none
  else
    let parentPath := getParentPath path
    let names := (siblingNames session.tree parentPath).filter (· ≠ fileBaseName path)
    if newName ∈ names then none
    else
      let newPath := joinPath parentPath newName
      some (newPath,
        { tree := renameNode session.tree path newName
          contents := remapContentPaths session.contents path newPath
          languages := session.languages.mapKeys (remapPath path newPath)
          revision := session.revision + 1 })

def moveVaultPath (session : VaultFileSession) (fromPath toFolderPath : TreePath) :
    Option (TreePath × VaultFileSession) :=
  if fromPath = .root ∨ fromPath = toFolderPath then none
  else
    match findNode session.tree fromPath with
    | none => none
    | some node =>
      let newPath := joinPath toFolderPath node.name
      if (findNode session.tree toFolderPath).map label ≠ some .folder then none
      else if getParentPath fromPath = toFolderPath then some (fromPath, session)
      else if node.name ∈ siblingNames session.tree toFolderPath then none
      else
        some (newPath,
          { tree := moveNode session.tree fromPath toFolderPath
            contents := remapContentPaths session.contents fromPath newPath
            languages := session.languages.mapKeys (remapPath fromPath newPath)
            revision := session.revision + 1 })

theorem mem_forbiddenLeafChars_slash : '/' ∈ forbiddenLeafChars := List.mem_cons_self

/-- A name that passes the check can stand in a path. -/
theorem isFileName_of_validateFileName {name : List Char} (h : validateFileName name = none) :
    IsFileName (jsTrimChars name) := by
  simp only [validateFileName] at h
  split at h
  · cases h
  · rename_i hne
    split at h
    · cases h
    · refine ⟨hne, fun hslash => ?_⟩
      simp only [validateDisplayName, String.toList_ofList, jsTrimChars_jsTrimChars] at h
      split at h
      · cases h
      · split at h
        · cases h
        · split at h
          · cases h
          · rename_i hchars
            refine hchars (List.any_eq_true.mpr ⟨'/', hslash, ?_⟩)
            rw [List.contains_iff_mem.mpr mem_forbiddenLeafChars_slash]
            rfl

end Upriv.FileTree
