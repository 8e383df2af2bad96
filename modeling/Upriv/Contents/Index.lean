import Mathlib.Tactic.Common

/-!
# The index of a store

`contents/index.rs`: the logical tree, one entry for each file.
-/

namespace Upriv.Contents

structure VaultIndexEntry where
  fileId : String
  path : String
  size : UInt64
  deriving DecidableEq, Repr

structure VaultIndex where
  formatVersion : UInt32
  entries : List VaultIndexEntry
  deriving DecidableEq, Repr

def FORMAT_VERSION : UInt32 := 1
def DATA_DIR_NAME : String := "data"

def VaultIndex.empty : VaultIndex := ⟨FORMAT_VERSION, []⟩

/-- The entry that a lookup by logical path finds. -/
def VaultIndex.find (index : VaultIndex) (logicalPath : String) :
    Option VaultIndexEntry :=
  index.entries.find? (·.path == logicalPath)

/-- `entries.retain(|entry| entry.path != logical_path)`. -/
def VaultIndex.retain (index : VaultIndex) (logicalPath : String) :
    VaultIndex :=
  { index with entries := index.entries.filter (·.path != logicalPath) }

/-- `entries.push(entry)`. -/
def VaultIndex.push (index : VaultIndex) (entry : VaultIndexEntry) :
    VaultIndex :=
  { index with entries := index.entries ++ [entry] }

section
variable {index : VaultIndex} {entry : VaultIndexEntry} {path : String}

@[simp] theorem entries_retain :
    (index.retain path).entries = index.entries.filter (·.path != path) := rfl

@[simp] theorem entries_push :
    (index.push entry).entries = index.entries ++ [entry] := rfl

theorem mem_of_find (h : index.find path = some entry) :
    entry ∈ index.entries :=
  List.mem_of_find?_eq_some h

theorem path_of_find (h : index.find path = some entry) :
    entry.path = path := by
  simpa using List.find?_some h

theorem retain_eq_self (h : index.find path = none) :
    index.retain path = index := by
  have hall : ∀ e ∈ index.entries, e.path ≠ path := by
    simpa [VaultIndex.find] using h
  have hfilter : index.entries.filter (·.path != path) = index.entries := by
    rw [List.filter_eq_self]
    intro e he
    simpa using hall e he
  simp [VaultIndex.retain, hfilter]

theorem find_retain_self : (index.retain path).find path = none := by
  simp [VaultIndex.find]

theorem find_retain_of_ne {other : String} (hne : other ≠ path) :
    (index.retain path).find other = index.find other := by
  rw [VaultIndex.find, VaultIndex.find, entries_retain, List.find?_filter]
  congr 1
  funext e
  by_cases he : e.path = other
  · simp [he, hne]
  · simp [he]

theorem find_push (other : String) :
    (index.push entry).find other =
      (index.find other).or (if entry.path = other then some entry else none) := by
  by_cases h : entry.path = other
  · simp [VaultIndex.find, List.find?_append, h]
  · simp [VaultIndex.find, List.find?_append, h]

end

end Upriv.Contents
