import Upriv.Error
import Upriv.Paths.Join
import Upriv.Support.Bytes
import Upriv.Support.Fallible
import Mathlib.Data.Finset.Basic

/-!
# The file system

Files and directories by path, without links.  Any system call may fail:
`faults n` is what the operating system answers to the `n`-th call if it
refuses it.  A query such as `is_dir` does not fail.

`write_bytes_atomic` writes a temporary file and renames it, so it replaces
the whole file or leaves it as it was; the temporary file is not part of the
model.
-/

namespace Upriv

structure Disk where
  files : PathBuf → Option Bytes
  dirs : Finset PathBuf
  /-- System calls made so far. -/
  calls : ℕ

/-- The calls that the operating system refuses. -/
abbrev Faults := ℕ → Option IoError

def noFaults : Faults := fun _ => none

abbrev FsM := FallibleM UprivError Disk

namespace Disk

def isFile (d : Disk) (path : PathBuf) : Bool := (d.files path).isSome

def isDir (d : Disk) (path : PathBuf) : Bool := path ∈ d.dirs

/-- `Path::exists`. -/
def exists_ (d : Disk) (path : PathBuf) : Bool := d.isFile path || d.isDir path

def write (d : Disk) (path : PathBuf) (content : Option Bytes) : Disk :=
  { d with files := Function.update d.files path content }

@[simp] theorem files_write (d : Disk) (path : PathBuf) (content : Option Bytes) :
    (d.write path content).files = Function.update d.files path content := rfl

@[simp] theorem dirs_write (d : Disk) (path : PathBuf) (content : Option Bytes) :
    (d.write path content).dirs = d.dirs := rfl

/-- `path` is `dir` or lies below it. -/
def Below (dir path : PathBuf) : Prop :=
  path = dir ∨ (joinPath dir "").toList <+: path.toList

instance (dir path : PathBuf) : Decidable (Below dir path) :=
  inferInstanceAs (Decidable (_ ∨ _))

end Disk

/-! ## System calls -/

def IoError.notFound : IoError := ⟨.notFound, "No such file or directory"⟩
def IoError.invalidUtf8 : IoError :=
  ⟨.invalidData, "stream did not contain valid UTF-8"⟩

section
variable (faults : Faults)

/-- One system call. -/
def sysCall {α : Type} (f : Disk → Except IoError α × Disk) : FsM α :=
  FallibleM.op fun d =>
    let d' := { d with calls := d.calls + 1 }
    match faults d.calls with
    | some error => (.error (.io error), d')
    | none =>
      match f d' with
      | (.ok a, d'') => (.ok a, d'')
      | (.error error, d'') => (.error (.io error), d'')

/-- `std::fs::read`. -/
def readFile (path : PathBuf) : FsM Bytes :=
  sysCall faults fun d =>
    match d.files path with
    | some bytes => (.ok bytes, d)
    | none => (.error .notFound, d)

/-- `std::fs::read_to_string`. -/
def readToString (path : PathBuf) : FsM String := do
  let bytes ← readFile faults path
  match decodeUtf8 bytes with
  | some text => pure text
  | none => throw (.io .invalidUtf8)

/-- `std::fs::write`: create or truncate, then write. -/
def writeFile (path : PathBuf) (bytes : Bytes) : FsM Unit := do
  sysCall faults fun d => (.ok (), d.write path (some []))
  sysCall faults fun d => (.ok (), d.write path (some bytes))

/-- `write_bytes_atomic_existing_parent`. -/
def writeBytesAtomicExistingParent (path : PathBuf) (bytes : Bytes) : FsM Unit := do
  let d ← get
  if (parent path).all d.isDir then
    sysCall faults fun d => (.ok (), d.write path (some bytes))
  else throw (.vaultRootNotFound path)

end

end Upriv
