import Upriv.Support.Segments
import Upriv.Support.Text
import Upriv.Support.TreeMoves
import Upriv.Support.Words

/-!
# Paths in a file tree

The functions on path strings of `domain/file-tree/treeUtils.ts` and `treeOps.ts`, and
what they do to the segments of normalized paths.
-/

namespace Upriv.FileTree

/-- A path of the file manager: every one begins with `/`. -/
structure TreePath where
  text : List Char
  absolute : text.head? = some '/'
  deriving DecidableEq

namespace TreePath

theorem ext {p q : TreePath} (h : p.text = q.text) : p = q := by
  cases p
  cases q
  cases h
  rfl

theorem text_inj {p q : TreePath} : p.text = q.text ↔ p = q := ⟨ext, congrArg text⟩

/-- `"/"`. -/
def root : TreePath := ⟨['/'], rfl⟩

/-- `path.split("/").filter(Boolean)`. -/
def segments (path : TreePath) : List (List Char) := pathSegments '/' path.text

theorem head?_append (path : TreePath) (rest : List Char) :
    (path.text ++ rest).head? = some '/' := by
  rw [List.head?_append, path.absolute]
  rfl

end TreePath

def joinPath (parent : TreePath) (name : List Char) : TreePath :=
  if parent = .root then ⟨'/' :: name, rfl⟩
  else ⟨parent.text ++ '/' :: name, parent.head?_append _⟩

def fileBaseName (path : TreePath) : List Char := path.segments.getLast?.getD path.text

def getParentPath (path : TreePath) : TreePath :=
  if path = .root then .root
  else
    let segments := path.segments.dropLast
    if segments.length = 0 then .root else ⟨'/' :: ['/'].intercalate segments, rfl⟩

def isDescendantPath (ancestor candidate : TreePath) : Bool :=
  if ancestor = .root then candidate ≠ .root
  else candidate = ancestor ∨ ancestor.text ++ ['/'] <+: candidate.text

/-- The key that `remapContentPaths` gives to the content of a path. -/
def remapPath (fromPrefix toPrefix path : TreePath) : TreePath :=
  if path = fromPrefix then toPrefix
  else if fromPrefix.text ++ ['/'] <+: path.text then
    ⟨toPrefix.text ++ path.text.drop fromPrefix.text.length, toPrefix.head?_append _⟩
  else path

/-! ## Normalized paths -/

/-- The names that a path can go through. -/
abbrev IsFileName (name : List Char) : Prop := IsSegment '/' name

def ofSegments (segs : List (List Char)) : TreePath := ⟨pathText '/' segs, pathText_head? segs⟩

/-- Segments after single slashes, and none at the end. -/
def Normalized (path : TreePath) : Prop := ofSegments path.segments = path

instance (path : TreePath) : Decidable (Normalized path) :=
  inferInstanceAs (Decidable (ofSegments path.segments = path))

theorem isFileName_of_mem_segments {path : TreePath} {name : List Char}
    (h : name ∈ path.segments) : IsFileName name := by
  have hwords : path.segments = words (fun c => !(c == '/')) path.text := by
    simp only [TreePath.segments, pathSegments, words, List.splitOn_eq_splitOnP, Bool.not_not]
  rw [hwords] at h
  refine ⟨ne_nil_of_mem_words h, fun hmem => ?_⟩
  have hslash := of_mem_words h hmem
  cases hslash

section OfSegments

variable {a b c : List (List Char)} {name : List Char}

@[simp] theorem segments_ofSegments (ha : ∀ s ∈ a, IsFileName s) : (ofSegments a).segments = a :=
  pathSegments_pathText ha

theorem ofSegments_inj (ha : ∀ s ∈ a, IsFileName s) (hb : ∀ s ∈ b, IsFileName s) :
    ofSegments a = ofSegments b ↔ a = b := by
  rw [← TreePath.text_inj]
  exact pathText_inj ha hb

theorem ofSegments_nil : ofSegments [] = .root := rfl

theorem ofSegments_eq_root_iff (ha : ∀ s ∈ a, IsFileName s) : ofSegments a = .root ↔ a = [] :=
  ofSegments_inj (b := []) ha (List.forall_mem_nil _)

theorem normalized_ofSegments (ha : ∀ s ∈ a, IsFileName s) : Normalized (ofSegments a) := by
  rw [Normalized, segments_ofSegments ha]

theorem Normalized.exists_segments {path : TreePath} (h : Normalized path) :
    ∃ segs, (∀ s ∈ segs, IsFileName s) ∧ path = ofSegments segs :=
  ⟨path.segments, fun _ => isFileName_of_mem_segments, h.symm⟩

theorem joinPath_ofSegments (ha : ∀ s ∈ a, IsFileName s) (name : List Char) :
    joinPath (ofSegments a) name = ofSegments (a ++ [name]) := by
  apply TreePath.ext
  rw [joinPath]
  split
  · rename_i hroot
    rw [(ofSegments_eq_root_iff ha).mp hroot]
    exact congrArg ('/' :: ·) (List.append_nil name).symm
  · rename_i hroot
    have hne : a ≠ [] := fun h => hroot ((ofSegments_eq_root_iff ha).mpr h)
    have htext : segmentsText '/' [name] = '/' :: name :=
      congrArg ('/' :: ·) (List.append_nil name)
    change pathText '/' a ++ '/' :: name = pathText '/' (a ++ [name])
    rw [pathText_append hne, htext]

theorem forall_mem_append_singleton (ha : ∀ s ∈ a, IsFileName s) (hname : IsFileName name) :
    ∀ s ∈ a ++ [name], IsFileName s := by
  intro s hs
  rcases List.mem_append.mp hs with hs | hs
  · exact ha s hs
  · rw [List.mem_singleton.mp hs]
    exact hname

theorem fileBaseName_ofSegments (ha : ∀ s ∈ a, IsFileName s) (hname : IsFileName name) :
    fileBaseName (ofSegments (a ++ [name])) = name := by
  rw [fileBaseName, segments_ofSegments (forall_mem_append_singleton ha hname),
    List.getLast?_append, List.getLast?_singleton]
  rfl

theorem getParentPath_ofSegments (ha : ∀ s ∈ a, IsFileName s) (hname : IsFileName name) :
    getParentPath (ofSegments (a ++ [name])) = ofSegments a := by
  have hsegs := forall_mem_append_singleton ha hname
  have hroot : ofSegments (a ++ [name]) ≠ .root := fun h =>
    List.append_ne_nil_of_right_ne_nil a (List.cons_ne_nil name [])
      ((ofSegments_eq_root_iff hsegs).mp h)
  rw [getParentPath, if_neg hroot, segments_ofSegments hsegs, List.dropLast_concat]
  cases a with
  | nil => rfl
  | cons s a =>
    apply TreePath.ext
    change '/' :: ['/'].intercalate (s :: a) = pathText '/' (s :: a)
    rw [intercalate_cons, pathText_of_ne_nil (List.cons_ne_nil s a)]
    rfl

theorem isDescendantPath_ofSegments (ha : ∀ s ∈ a, IsFileName s) (hb : ∀ s ∈ b, IsFileName s)
    (hne : a ≠ []) : isDescendantPath (ofSegments a) (ofSegments b) = true ↔ a <+: b := by
  rw [isDescendantPath, if_neg fun h => hne ((ofSegments_eq_root_iff ha).mp h), decide_eq_true_iff,
    ofSegments_inj hb ha]
  refine (or_congr_right (pathText_sep_prefix_iff hne ha hb)).trans ?_
  constructor
  · rintro (rfl | h)
    · exact List.prefix_refl b
    · exact h.1
  · intro h
    by_cases hab : b = a
    · exact .inl hab
    · exact .inr ⟨h, Ne.symm hab⟩

/-- On normalized paths the mapping of the contents replaces a beginning. -/
theorem remapPath_ofSegments (ha : ∀ s ∈ a, IsFileName s) (hc : ∀ s ∈ c, IsFileName s)
    (hne : a ≠ []) (hb : b ≠ []) :
    remapPath (ofSegments a) (ofSegments b) (ofSegments c) =
      ofSegments (NamedTree.replacePrefix a b c) := by
  rw [remapPath]
  split
  · rename_i heq
    have hrefl := NamedTree.replacePrefix_append a b []
    rw [List.append_nil, List.append_nil] at hrefl
    rw [(ofSegments_inj hc ha).mp heq, hrefl]
  · rename_i hca
    have hca' : a ≠ c := fun h => hca (congrArg ofSegments h.symm)
    split
    · rename_i hbegin
      obtain ⟨⟨rest, rfl⟩, -⟩ := (pathText_sep_prefix_iff hne ha hc).mp hbegin
      apply TreePath.ext
      change pathText '/' b ++ (pathText '/' (a ++ rest)).drop (pathText '/' a).length =
        pathText '/' (NamedTree.replacePrefix a b (a ++ rest))
      rw [pathText_append hne, List.drop_left, NamedTree.replacePrefix_append, pathText_append hb]
    · rename_i hbegin
      rw [NamedTree.replacePrefix_of_not_begin]
      exact fun h => hbegin ((pathText_sep_prefix_iff hne ha hc).mpr ⟨h, hca'⟩)

end OfSegments

end Upriv.FileTree
