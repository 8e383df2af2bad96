import Upriv.Contents.Index
import Upriv.Error
import Upriv.Support.Bytes
import Upriv.Support.Fallible

/-!
# The state of an open store

The index in memory and the files below `contents/`.  Every file-system call
may fail; which ones do is given by a `Faults` function.  A write goes to a
temporary file that is renamed into place, so it replaces the whole file or
leaves it as it was.
-/

namespace Upriv.Contents

structure ContentsStore where
  index : VaultIndex
  files : PathBuf → Option Bytes

/-- The file-system calls of a write, by the path they act on. -/
inductive FsCall where
  | removeFile (path : PathBuf)
  | createDirAll (path : PathBuf)
  | writeBytesAtomic (path : PathBuf)
  deriving DecidableEq, Repr

/-- The calls the operating system refuses. -/
abbrev Faults := FsCall → Option IoError

abbrev StoreM := FallibleM UprivError ContentsStore

def notFoundError : IoError := ⟨.notFound, "No such file or directory"⟩

/-- `std::fs::remove_file`, with a missing file accepted. -/
def removeFile (faults : Faults) (path : PathBuf) : StoreM PUnit :=
  FallibleM.op fun s =>
    match faults (.removeFile path) with
    | some error =>
        if error.kind = .notFound then (.ok ⟨⟩, s) else (.error (.io error), s)
    | none => (.ok ⟨⟩, { s with files := Function.update s.files path none })

/-- `std::fs::create_dir_all`.  The state has no directories: a fault says that `path` is
missing and cannot be made, for one that exists is never refused. -/
def createDirAll (faults : Faults) (path : PathBuf) : StoreM PUnit :=
  FallibleM.op fun s =>
    match faults (.createDirAll path) with
    | some error => (.error (.io error), s)
    | none => (.ok ⟨⟩, s)

def writeBytesAtomic (faults : Faults) (path : PathBuf) (bytes : Bytes) :
    StoreM PUnit :=
  FallibleM.op fun s =>
    match faults (.writeBytesAtomic path) with
    | some error => (.error (.io error), s)
    | none =>
        (.ok ⟨⟩, { s with files := Function.update s.files path (some bytes) })

/-- `std::fs::read` on an undisturbed file system. -/
def ContentsStore.read (s : ContentsStore) (path : PathBuf) :
    Except IoError Bytes :=
  match s.files path with
  | none => .error notFoundError
  | some bytes => .ok bytes

theorem ContentsStore.read_eq_ok {s : ContentsStore} {path : PathBuf} {bytes : Bytes} :
    s.read path = .ok bytes ↔ s.files path = some bytes := by
  rw [ContentsStore.read]
  cases s.files path <;> simp

/-! ## Frames -/

/-- Only files in `P` differ. -/
def SameFilesExcept (P : Set PathBuf) (s s' : ContentsStore) : Prop :=
  ∀ path, path ∉ P → s'.files path = s.files path

section
variable {P : Set PathBuf} {s s' : ContentsStore}

theorem SameFilesExcept.update {path : PathBuf} (h : SameFilesExcept P s s')
    (hpath : path ∈ P) (content : Option Bytes) :
    SameFilesExcept P s
      { s' with files := Function.update s'.files path content } := by
  intro other hother
  rw [← h other hother]
  apply Function.update_of_ne
  rintro rfl
  exact hother hpath

theorem sameFilesExcept_removeFile (faults : Faults) {path : PathBuf}
    (h : SameFilesExcept P s s') (hpath : path ∈ P) :
    SameFilesExcept P s ((removeFile faults path).exec s').2 := by
  simp only [removeFile, FallibleM.exec_op]
  cases faults (.removeFile path) with
  | none => exact h.update hpath none
  | some error => dsimp only; split <;> exact h

theorem sameFilesExcept_createDirAll (faults : Faults) (path : PathBuf)
    (h : SameFilesExcept P s s') :
    SameFilesExcept P s ((createDirAll faults path).exec s').2 := by
  simp only [createDirAll, FallibleM.exec_op]
  cases faults (.createDirAll path) <;> exact h

theorem sameFilesExcept_writeBytesAtomic (faults : Faults) {path : PathBuf}
    (bytes : Bytes) (h : SameFilesExcept P s s') (hpath : path ∈ P) :
    SameFilesExcept P s ((writeBytesAtomic faults path bytes).exec s').2 := by
  simp only [writeBytesAtomic, FallibleM.exec_op]
  cases faults (.writeBytesAtomic path) with
  | none => exact h.update hpath (some bytes)
  | some error => exact h

@[simp] theorem index_removeFile (faults : Faults) (path : PathBuf) :
    ((removeFile faults path).exec s).2.index = s.index := by
  simp only [removeFile, FallibleM.exec_op]
  cases faults (.removeFile path) with
  | none => rfl
  | some error => dsimp only; split <;> rfl

@[simp] theorem index_createDirAll (faults : Faults) (path : PathBuf) :
    ((createDirAll faults path).exec s).2.index = s.index := by
  simp only [createDirAll, FallibleM.exec_op]
  cases faults (.createDirAll path) <;> rfl

@[simp] theorem index_writeBytesAtomic (faults : Faults) (path : PathBuf)
    (bytes : Bytes) :
    ((writeBytesAtomic faults path bytes).exec s).2.index = s.index := by
  simp only [writeBytesAtomic, FallibleM.exec_op]
  cases faults (.writeBytesAtomic path) <;> rfl

theorem writeBytesAtomic_ok {faults : Faults} {path : PathBuf} {bytes : Bytes}
    (h : (writeBytesAtomic faults path bytes).exec s = (.ok ⟨⟩, s')) :
    s'.files path = some bytes := by
  simp only [writeBytesAtomic, FallibleM.exec_op] at h
  split at h
  · simp at h
  · simp only [Prod.mk.injEq, true_and] at h
    simp [← h]

end

end Upriv.Contents
