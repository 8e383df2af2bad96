import Upriv.Fs.Disk
import Upriv.Support.Preserves

/-!
# What a file-system operation leaves alone

Reading changes nothing but the count of system calls; writing changes one
file.
-/

namespace Upriv

open FallibleM

/-- The same files and directories. -/
def SameDisk (d d' : Disk) : Prop := d'.files = d.files ∧ d'.dirs = d.dirs

/-- The same file at `path`. -/
def SameAt (path : PathBuf) (d d' : Disk) : Prop := d'.files path = d.files path

/-- The same directories. -/
def SameDirs (d d' : Disk) : Prop := d'.dirs = d.dirs

instance : IsPreorder Disk SameDirs where
  refl _ := rfl
  trans _ _ _ h h' := h'.trans h

/-- System calls are only added. -/
def CallsGrow (d d' : Disk) : Prop := d.calls ≤ d'.calls

instance : IsPreorder Disk CallsGrow where
  refl _ := Nat.le_refl _
  trans _ _ _ h h' := Nat.le_trans h h'

instance : IsPreorder Disk SameDisk where
  refl _ := ⟨rfl, rfl⟩
  trans _ _ _ h h' := ⟨h'.1.trans h.1, h'.2.trans h.2⟩

instance (path : PathBuf) : IsPreorder Disk (SameAt path) where
  refl _ := rfl
  trans _ _ _ h h' := h'.trans h

theorem SameDisk.sameAt {d d' : Disk} (h : SameDisk d d') (path : PathBuf) :
    SameAt path d d' := congrFun h.1 path

theorem preserves_sameAt {α : Type} {x : FsM α} (h : Preserves SameDisk x)
    (path : PathBuf) : Preserves (SameAt path) x :=
  fun d => (h d).sameAt path

section
variable (faults : Faults) {path other : PathBuf}

theorem preserves_sysCall {R : Disk → Disk → Prop} [IsPreorder Disk R] {α : Type}
    {f : Disk → Except IoError α × Disk} (hcalls : ∀ d n, R d { d with calls := n })
    (hf : ∀ d, R d (f d).2) : Preserves R (sysCall faults f) := by
  refine preserves_op fun d => ?_
  dsimp only
  have hcall := hcalls d (d.calls + 1)
  split
  · exact hcall
  · have hrest := IsTrans.trans _ _ _ hcall (hf { d with calls := d.calls + 1 })
    split <;> rename_i hresult <;> rw [hresult] at hrest <;> exact hrest

theorem callsGrow_sysCall {α : Type} {f : Disk → Except IoError α × Disk}
    (hf : ∀ d, (f d).2.calls = d.calls) : Preserves CallsGrow (sysCall faults f) := by
  refine preserves_op fun d => ?_
  dsimp only
  have hcall := hf { d with calls := d.calls + 1 }
  split
  · exact Nat.le_succ _
  · split <;> rename_i hresult <;> rw [hresult] at hcall <;>
      exact (Nat.le_succ d.calls).trans hcall.ge

theorem callsGrow_readToString (path : PathBuf) :
    Preserves CallsGrow (readToString faults path) := by
  refine preserves_bind (callsGrow_sysCall faults fun d => ?_) fun bytes => ?_
  · split <;> rfl
  · split
    · exact preserves_pure _
    · exact preserves_throw _

theorem callsGrow_writeBytesAtomicExistingParent (path : PathBuf) (bytes : Bytes) :
    Preserves CallsGrow (writeBytesAtomicExistingParent faults path bytes) := by
  refine preserves_bind preserves_get fun d => ?_
  split
  · exact callsGrow_sysCall faults fun _ => rfl
  · exact preserves_throw _

theorem errors_sysCall {P : UprivError → Prop} (hio : ∀ error, P (.io error)) {α : Type}
    (f : Disk → Except IoError α × Disk) : Errors P (sysCall faults f) := by
  intro d e d' hrun
  simp only [sysCall, exec_op] at hrun
  split at hrun
  · cases hrun
    exact hio _
  · split at hrun <;> cases hrun
    exact hio _

theorem errors_readToString {P : UprivError → Prop} (hio : ∀ error, P (.io error))
    (path : PathBuf) : Errors P (readToString faults path) := by
  refine errors_bind (errors_sysCall faults hio _) fun bytes => ?_
  split
  · exact errors_pure _
  · exact errors_throw (hio _)

theorem errors_writeBytesAtomicExistingParent {P : UprivError → Prop}
    (hio : ∀ error, P (.io error)) (hmissing : P (.vaultRootNotFound path)) (bytes : Bytes) :
    Errors P (writeBytesAtomicExistingParent faults path bytes) := by
  refine errors_bind errors_get fun d => ?_
  split
  · exact errors_sysCall faults hio _
  · exact errors_throw hmissing

theorem preserves_readFile (path : PathBuf) :
    Preserves SameDisk (readFile faults path) := by
  refine preserves_sysCall faults (fun _ _ => ⟨rfl, rfl⟩) fun d => ?_
  split <;> exact ⟨rfl, rfl⟩

theorem preserves_readToString (path : PathBuf) :
    Preserves SameDisk (readToString faults path) := by
  refine preserves_bind (preserves_readFile faults path) fun bytes => ?_
  split
  · exact preserves_pure _
  · exact preserves_throw _

theorem preserves_write (hne : other ≠ path) (bytes : Bytes) :
    Preserves (SameAt other)
      (sysCall faults fun d => (.ok (), d.write path (some bytes))) := by
  refine preserves_sysCall faults (fun _ _ => rfl) fun d => ?_
  exact Function.update_of_ne hne (some bytes) d.files

theorem preserves_writeFile (hne : other ≠ path) (bytes : Bytes) :
    Preserves (SameAt other) (writeFile faults path bytes) := by
  exact preserves_bind (preserves_write faults hne []) fun _ =>
    preserves_write faults hne bytes

theorem preserves_writeBytesAtomicExistingParent (hne : other ≠ path) (bytes : Bytes) :
    Preserves (SameAt other) (writeBytesAtomicExistingParent faults path bytes) := by
  refine preserves_bind preserves_get fun d => ?_
  split
  · exact preserves_write faults hne bytes
  · exact preserves_throw _

theorem sameDirs_writeBytesAtomicExistingParent (path : PathBuf) (bytes : Bytes) :
    Preserves SameDirs (writeBytesAtomicExistingParent faults path bytes) := by
  refine preserves_bind preserves_get fun d => ?_
  split
  · exact preserves_sysCall faults (fun _ _ => rfl) fun _ => rfl
  · exact preserves_throw _

/-- A failed atomic write leaves every file as it was. -/
theorem sameDisk_of_writeBytesAtomic_error (bytes : Bytes) :
    PreservesOnError SameDisk (writeBytesAtomicExistingParent faults path bytes) := by
  refine preservesOnError_bind preserves_get fun d => ?_
  split
  · intro d e d' hrun
    simp only [sysCall, exec_op] at hrun
    split at hrun
    · cases hrun
      exact ⟨rfl, rfl⟩
    · cases hrun
  · exact (preserves_throw _).onError

/-- An atomic write fails because its system call is refused or there is no directory
for the file. -/
theorem writeBytesAtomic_error {bytes : Bytes} {d d' : Disk} {e : UprivError}
    (hrun : (writeBytesAtomicExistingParent faults path bytes).exec d = (.error e, d')) :
    (∃ error, faults d.calls = some error ∧ e = .io error ∧ d'.calls = d.calls + 1) ∨
      ((parent path).all d.isDir = false ∧ e = .vaultRootNotFound path) := by
  rw [writeBytesAtomicExistingParent, exec_bind, exec_get] at hrun
  dsimp only at hrun
  split at hrun
  · simp only [sysCall, exec_op] at hrun
    split at hrun
    · rename_i error hfault
      cases hrun
      exact .inl ⟨error, hfault, rfl, rfl⟩
    · cases hrun
  · rename_i hparent
    cases hrun
    exact .inr ⟨by simpa using hparent, rfl⟩

theorem files_of_writeBytesAtomic_ok {bytes : Bytes} {d d' : Disk}
    (hrun : (writeBytesAtomicExistingParent faults path bytes).exec d = (.ok (), d')) :
    d'.files = Function.update d.files path (some bytes) := by
  rw [writeBytesAtomicExistingParent, exec_bind, exec_get] at hrun
  dsimp only at hrun
  split at hrun
  · simp only [sysCall, exec_op] at hrun
    split at hrun
    · cases hrun
    · cases hrun
      rfl
  · cases hrun

theorem exec_readToString {bytes : Bytes} {text : String} {d : Disk}
    (hcall : faults d.calls = none) (hfile : d.files path = some bytes)
    (htext : decodeUtf8 bytes = some text) :
    (readToString faults path).exec d = (.ok text, { d with calls := d.calls + 1 }) := by
  have hread : (readFile faults path).exec d = (.ok bytes, { d with calls := d.calls + 1 }) := by
    simp only [readFile, sysCall, exec_op, hcall, hfile]
  rw [readToString, exec_bind_of_ok hread, htext, exec_pure]

theorem exec_readToString_of_refused {error : IoError} {d : Disk}
    (hcall : faults d.calls = some error) :
    (readToString faults path).exec d = (.error (.io error), { d with calls := d.calls + 1 }) := by
  have hread : (readFile faults path).exec d =
      (.error (.io error), { d with calls := d.calls + 1 }) := by
    simp only [readFile, sysCall, exec_op, hcall]
  rw [readToString, exec_bind_of_error hread]

theorem readToString_ok {text : String} {d d' : Disk}
    (hrun : (readToString faults path).exec d = (.ok text, d')) :
    ∃ bytes, d.files path = some bytes ∧ decodeUtf8 bytes = some text := by
  obtain ⟨bytes, m, hread, htext⟩ := exec_bind_eq_ok_iff.mp hrun
  refine ⟨bytes, ?_, ?_⟩
  · simp only [readFile, sysCall, exec_op] at hread
    split at hread
    · cases hread
    · cases hfile : d.files path <;> simp [hfile] at hread
      rw [hread.1]
  · cases hdecode : decodeUtf8 bytes <;> simp [hdecode] at htext
    rw [htext.1]

end

end Upriv
