import Mathlib.Algebra.BigOperators.Group.List.Basic
import Mathlib.Algebra.Order.BigOperators.Group.List
import Mathlib.Algebra.Ring.Nat
import Mathlib.Tactic.Common

/-!
# Keeping a list within a budget

Elements are dropped from the front until the rest weighs no more than a budget, with a
running total.  From the right total it drops as little as it can; from a total that is
too small by more than any budget or weight it always keeps too much.
-/

namespace Upriv

variable {α : Type} (weight : α → ℕ) (budget : ℕ)

/-- Drop from the front as long as the total is above the budget. -/
def dropToBudget : ℕ → List α → List α
  | _, [] => []
  | total, a :: l => if total ≤ budget then a :: l else dropToBudget (total - weight a) l

variable {weight budget}

theorem dropToBudget_of_le {total : ℕ} (h : total ≤ budget) (l : List α) :
    dropToBudget weight budget total l = l := by
  cases l with
  | nil => rfl
  | cons a l => rw [dropToBudget, if_pos h]

/-- With the right total the rest fits. -/
theorem sum_dropToBudget_le (l : List α) :
    ((dropToBudget weight budget (l.map weight).sum l).map weight).sum ≤ budget := by
  induction l with
  | nil => exact Nat.zero_le _
  | cons a l ih =>
      rw [dropToBudget]
      split
      · assumption
      · rwa [List.map_cons, List.sum_cons, Nat.add_sub_cancel_left]

/-- With the right total the rest and the element dropped last do not fit. -/
theorem exists_dropped (l : List α) :
    ∃ dropped, l = dropped ++ dropToBudget weight budget (l.map weight).sum l ∧
      ∀ a ∈ dropped.getLast?, budget <
        weight a + ((dropToBudget weight budget (l.map weight).sum l).map weight).sum := by
  induction l with
  | nil => exact ⟨[], rfl, nofun⟩
  | cons a l ih =>
      rw [dropToBudget]
      split
      · exact ⟨[], rfl, nofun⟩
      · rename_i htotal
        obtain ⟨dropped, hl, hlast⟩ := ih
        rw [List.map_cons, List.sum_cons, Nat.add_sub_cancel_left]
        refine ⟨a :: dropped, ?_, ?_⟩
        · rw [List.cons_append, ← hl]
        · intro b hb
          rw [List.getLast?_cons] at hb
          cases hdropped : dropped.getLast? with
          | some c =>
              rw [hdropped] at hb
              exact hlast b (by rw [hdropped]; exact hb)
          | none =>
              rw [hdropped] at hb
              cases hb
              rw [List.getLast?_eq_none_iff] at hdropped
              rw [hdropped, List.nil_append] at hl
              rw [← hl]
              rw [List.map_cons, List.sum_cons] at htotal
              exact Nat.lt_of_not_le htotal

/-- With a total that is too small the rest does not fit. -/
theorem budget_lt_of_small_total {bound total : ℕ} {l : List α} (hbudget : budget < bound)
    (hweight : ∀ a ∈ l, weight a < bound) (h : total + bound ≤ (l.map weight).sum) :
    budget < ((dropToBudget weight budget total l).map weight).sum := by
  induction l generalizing total with
  | nil =>
      rw [List.map_nil, List.sum_nil] at h
      omega
  | cons a l ih =>
      have ha := hweight a List.mem_cons_self
      rw [dropToBudget]
      split
      · omega
      · rw [List.map_cons, List.sum_cons] at h
        by_cases hsmall : weight a ≤ total
        · exact ih (fun b hb => hweight b (List.mem_cons_of_mem _ hb)) (by omega)
        · rw [dropToBudget_of_le (by omega)]
          omega

end Upriv
