import Mathlib.Data.List.Nodup
import Mathlib.Data.List.Perm.Subperm
import Mathlib.Data.List.Range
import Mathlib.Data.Nat.Find
import Mathlib.Tactic.Common

/-!
# The first free candidate

Candidates are numbered, and some are taken.  When different numbers give different
candidates, the search ends after at most as many tries as there are taken ones.
-/

namespace Upriv

section FirstFree

variable {α : Type} [DecidableEq α] {taken : List α} {candidate : ℕ → α}

/-- The first free candidate from number `n` on, if it is among the next `fuel`. -/
def firstFree (taken : List α) (candidate : ℕ → α) : ℕ → ℕ → Option α
  | 0, _ => none
  | fuel + 1, n =>
    if candidate n ∈ taken then firstFree taken candidate fuel (n + 1) else some (candidate n)

omit [DecidableEq α] in
/-- Not all of the next candidates are taken. -/
theorem exists_free (hinj : Function.Injective candidate) (taken : List α) (n : ℕ) :
    ∃ k, k ≤ taken.length ∧ candidate (n + k) ∉ taken := by
  by_contra hall
  push Not at hall
  have hnodup : ((List.range (taken.length + 1)).map fun k => candidate (n + k)).Nodup := by
    apply List.nodup_range.map
    intro i j hij
    exact Nat.add_left_cancel (hinj hij)
  have hsubset : ((List.range (taken.length + 1)).map fun k => candidate (n + k)) ⊆ taken := by
    intro a ha
    obtain ⟨k, hk, rfl⟩ := List.mem_map.mp ha
    exact hall k (Nat.lt_succ_iff.mp (List.mem_range.mp hk))
  have hlength := (hnodup.subperm hsubset).length_le
  rw [List.length_map, List.length_range] at hlength
  omega

theorem firstFree_of_taken_before {k : ℕ} (hfree : candidate k ∉ taken) {fuel n : ℕ}
    (hbefore : ∀ i, n ≤ i → i < k → candidate i ∈ taken) (hn : n ≤ k) (hfuel : k < n + fuel) :
    firstFree taken candidate fuel n = some (candidate k) := by
  induction fuel generalizing n with
  | zero => omega
  | succ fuel ih =>
      rw [firstFree]
      rcases Nat.eq_or_lt_of_le hn with rfl | hlt
      · rw [if_neg hfree]
      · rw [if_pos (hbefore n (le_refl n) hlt)]
        exact ih (fun i hi => hbefore i (by omega)) hlt (by omega)

/-- The search ends, with the same free candidate for every fuel that is enough. -/
theorem firstFree_of_injective (hinj : Function.Injective candidate) (taken : List α) (n : ℕ) :
    ∃ k, n ≤ k ∧ k ≤ n + taken.length ∧ candidate k ∉ taken ∧
      ∀ fuel, taken.length < fuel → firstFree taken candidate fuel n = some (candidate k) := by
  have hexists := exists_free hinj taken n
  have hfirst := Nat.find_spec hexists
  refine ⟨n + Nat.find hexists, Nat.le_add_right _ _, ?_, hfirst.2, fun fuel hfuel => ?_⟩
  · exact Nat.add_le_add_left hfirst.1 n
  · apply firstFree_of_taken_before hfirst.2 _ (Nat.le_add_right _ _) (by omega)
    intro i hi hlt
    by_contra hfree
    refine Nat.find_min hexists (show i - n < _ by omega) ⟨by omega, ?_⟩
    rwa [Nat.add_sub_cancel' hi]

end FirstFree

end Upriv
