import Mathlib.Algebra.Order.Floor.Div
import Mathlib.Data.Nat.Basic
import Mathlib.Tactic.Common

/-!
# Cutting a list into chunks

Consecutive slices of a fixed length, the last one possibly shorter.
-/

namespace Upriv

variable {α : Type*}

/-- The `i`-th slice of length `n`. -/
def slice (n i : ℕ) (l : List α) : List α := (l.drop (i * n)).take n

/-- All slices of length `n`, as `[T]::chunks` yields them. -/
def chunks (n : ℕ) (l : List α) : List (List α) :=
  (List.range (l.length ⌈/⌉ n)).map fun i => slice n i l

theorem length_slice (n i : ℕ) (l : List α) :
    (slice n i l).length = min n (l.length - i * n) := by
  simp [slice]

theorem length_chunks (n : ℕ) (l : List α) :
    (chunks n l).length = l.length ⌈/⌉ n := by
  simp [chunks]

theorem getElem?_chunks {n i : ℕ} {l : List α} {c : List α}
    (h : (chunks n l)[i]? = some c) :
    i < l.length ⌈/⌉ n ∧ c = slice n i l := by
  simp only [chunks, List.getElem?_map, Option.map_eq_some_iff,
    List.getElem?_eq_some_iff, List.length_range, List.getElem_range] at h
  obtain ⟨j, ⟨hi, rfl⟩, rfl⟩ := h
  exact ⟨hi, rfl⟩

theorem length_le_of_mem_chunks {n : ℕ} {l c : List α} (h : c ∈ chunks n l) : c.length ≤ n := by
  obtain ⟨i, -, rfl⟩ := List.mem_map.mp h
  rw [length_slice]
  exact min_le_left _ _

/-- The first `k` slices make up the first `k * n` items. -/
theorem flatMap_slice_range (n k : ℕ) (l : List α) :
    (List.range k).flatMap (fun i => slice n i l) = l.take (k * n) := by
  induction k with
  | zero => simp
  | succ k ih =>
      rw [List.range_succ, List.flatMap_append, ih, Nat.succ_mul, List.take_add]
      simp [slice]

theorem flatMap_slice {n : ℕ} (hn : 0 < n) (l : List α) :
    (List.range (l.length ⌈/⌉ n)).flatMap (fun i => slice n i l) = l := by
  rw [flatMap_slice_range]
  apply List.take_of_length_le
  rw [Nat.mul_comm]
  exact (ceilDiv_le_iff_le_mul hn).mp (Nat.le_refl _)

end Upriv
