import Mathlib.Data.List.Forall2
import Mathlib.Data.Option.Basic
import Mathlib.Logic.Function.Basic
import Mathlib.Tactic.Common

/-!
# A map with a saved copy

A map in use and the copy that a restart comes back to.  Writing a key spoils its saved
copy, except for values that need nothing of their own in storage; saving makes both
copies agree.
-/

namespace Upriv

structure SavedMap (K V : Type) where
  live : K → Option V
  saved : K → Option V

namespace SavedMap

variable {K V : Type} [DecidableEq K]

inductive Op (K V : Type) where
  | write (key : K) (value : V)
  | lose (key : K)
  | idle
  | save
  | restore

/-- The key that an operation is about. -/
def Op.key? : Op K V → Option K
  | .write key _ => some key
  | .lose key => some key
  | .idle => none
  | .save => none
  | .restore => none

/-- `survives` holds of the values whose saved copy outlives an overwrite. -/
def apply (survives : V → Bool) (m : SavedMap K V) : Op K V → SavedMap K V
  | .write key value =>
      { live := Function.update m.live key (some value)
        saved := Function.update m.saved key ((m.saved key).filter survives) }
  | .lose key =>
      { live := Function.update m.live key none
        saved := Function.update m.saved key ((m.saved key).filter survives) }
  | .idle => m
  | .save => { live := m.live, saved := m.live }
  | .restore => { live := m.saved, saved := m.saved }

def run (survives : V → Bool) (ops : List (Op K V)) (m : SavedMap K V) : SavedMap K V :=
  ops.foldl (apply survives) m

variable {survives : V → Bool} {m : SavedMap K V} {ops : List (Op K V)} {op : Op K V} {key : K}

@[simp] theorem run_nil : run survives [] m = m := rfl

@[simp] theorem run_cons : run survives (op :: ops) m = run survives ops (m.apply survives op) :=
  rfl

/-! ## Keys that no operation is about -/

/-- The copies of such a key stay, or one becomes the other. -/
theorem apply_of_key_ne (survives : V → Bool) (m : SavedMap K V) (hkey : op.key? ≠ some key) :
    (m.apply survives op).live key = m.live key ∧ (m.apply survives op).saved key = m.saved key ∨
      (m.apply survives op).live key = (m.apply survives op).saved key ∧
        ((op = .save ∧ (m.apply survives op).live key = m.live key) ∨
          (op = .restore ∧ (m.apply survives op).live key = m.saved key)) := by
  cases op with
  | write other value =>
      have hne : key ≠ other := fun h => hkey (h ▸ rfl)
      exact .inl ⟨Function.update_of_ne hne _ _, Function.update_of_ne hne _ _⟩
  | lose other =>
      have hne : key ≠ other := fun h => hkey (h ▸ rfl)
      exact .inl ⟨Function.update_of_ne hne _ _, Function.update_of_ne hne _ _⟩
  | idle => exact .inl ⟨rfl, rfl⟩
  | save => exact .inr ⟨rfl, .inl ⟨rfl, rfl⟩⟩
  | restore => exact .inr ⟨rfl, .inr ⟨rfl, rfl⟩⟩

/-- Once both copies of a key agree they do so until the next operation on it. -/
theorem run_of_agrees (hagrees : m.live key = m.saved key)
    (hkeys : ∀ op ∈ ops, op.key? ≠ some key) :
    (run survives ops m).live key = m.live key ∧ (run survives ops m).saved key = m.live key := by
  induction ops generalizing m with
  | nil => exact ⟨rfl, hagrees.symm⟩
  | cons op ops ih =>
      have hrest : ∀ op ∈ ops, op.key? ≠ some key :=
        fun op hop => hkeys op (List.mem_cons_of_mem _ hop)
      have hstep : (m.apply survives op).live key = (m.apply survives op).saved key ∧
          (m.apply survives op).live key = m.live key := by
        rcases apply_of_key_ne survives m (hkeys op List.mem_cons_self) with
          ⟨hlive, hsaved⟩ | ⟨hsame, ⟨-, hlive⟩ | ⟨-, hlive⟩⟩
        · exact ⟨by rw [hlive, hsaved, hagrees], hlive⟩
        · exact ⟨hsame, hlive⟩
        · exact ⟨hsame, hlive.trans hagrees.symm⟩
      obtain ⟨hlive, hsaved⟩ := ih hstep.1 hrest
      exact ⟨hlive.trans hstep.2, hsaved.trans hstep.2⟩

/-- A save comes before the first restore. -/
def SavedFirst : List (Op K V) → Prop
  | [] => True
  | .save :: _ => True
  | .restore :: _ => False
  | _ :: ops => SavedFirst ops

/-- A key keeps its value through operations on other keys, restores included, if it is
saved before them. -/
theorem live_run_of_saved (hkeys : ∀ op ∈ ops, op.key? ≠ some key)
    (hsaves : SavedFirst ops) : (run survives ops m).live key = m.live key := by
  induction ops generalizing m with
  | nil => rfl
  | cons op ops ih =>
      have hrest : ∀ op ∈ ops, op.key? ≠ some key :=
        fun op hop => hkeys op (List.mem_cons_of_mem _ hop)
      have hother := apply_of_key_ne survives m (hkeys op List.mem_cons_self)
      cases op with
      | save => exact (run_of_agrees (m := m.apply survives .save) rfl hrest).1
      | restore => exact hsaves.elim
      | idle => exact ih hrest hsaves
      | write other value =>
          rcases hother with ⟨hlive, -⟩ | ⟨-, ⟨h, -⟩ | ⟨h, -⟩⟩
          · exact (ih hrest hsaves).trans hlive
          · cases h
          · cases h
      | lose other =>
          rcases hother with ⟨hlive, -⟩ | ⟨-, ⟨h, -⟩ | ⟨h, -⟩⟩
          · exact (ih hrest hsaves).trans hlive
          · cases h
          · cases h

end SavedMap

end Upriv
