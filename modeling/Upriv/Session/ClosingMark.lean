import Upriv.Session.Steps
import Upriv.Support.Runs
import Mathlib.Algebra.Ring.Nat
import Mathlib.Data.Fintype.Basic

/-!
# The closing mark

`CLOSING` is a set: two closes of one directory share one entry, and the
first guard to be dropped removes it.  As long as no guard is dropped while
another guard of its directory is alive, the mark covers every close from
before it takes the session until after it has persisted or put it back.
-/

namespace Upriv.Session

variable {T D I : Type}

/-- A guard that this step drops is the only one of its directory. -/
def DropsLastGuard (s : State T D I) (e : T × Event D I) (_ : State T D I) : Prop :=
  ∀ dir ∈ (s.pc e.1).dropping, ∀ t, t ≠ e.1 → (s.pc t).guardDir ≠ some dir

/-- Every live guard has its mark. -/
def GuardsMarked (s : State T D I) : Prop :=
  ∀ t dir, (s.pc t).guardDir = some dir → dir ∈ s.shared.closing

theorem guardsMarked_initial (dirs : Finset D) (disk : D → Option I) :
    GuardsMarked (initial dirs disk : State T D I) := by
  intro t dir h
  cases h

variable [DecidableEq T] [DecidableEq D]

theorem guardsMarked_step {s s' : State T D I} {e : T × Event D I}
    (hinv : GuardsMarked s) (hstep : step s e = some s')
    (hok : DropsLastGuard s e s') : GuardsMarked s' := by
  obtain ⟨hnext, hother⟩ := step_eq_some hstep
  intro t dir hguard
  rcases next_closing hnext with ⟨hclosing, hsame⟩ | ⟨entered, hclosing, hnew⟩ |
      ⟨dropped, hdropping, hclosing, hnone⟩
  · rw [hclosing]
    by_cases ht : t = e.1
    · subst ht
      exact hinv e.1 dir (hsame ▸ hguard)
    · exact hinv t dir (hother t ht ▸ hguard)
  · rw [hclosing, Finset.mem_insert]
    by_cases ht : t = e.1
    · subst ht
      exact .inl (Option.some.inj (hguard.symm.trans hnew))
    · exact .inr (hinv t dir (hother t ht ▸ hguard))
  · have ht : t ≠ e.1 := by
      rintro rfl
      rw [hnone] at hguard
      cases hguard
    rw [hother t ht] at hguard
    rw [hclosing, Finset.mem_erase]
    refine ⟨?_, hinv t dir hguard⟩
    rintro rfl
    exact hok dir hdropping t ht hguard

/-- In every run in which no guard is dropped while another guard of its
directory is alive, a close that has the session is marked. -/
theorem closing_marked {dirs : Finset D} {disk : D → Option I}
    {es : List (T × Event D I)} {s : State T D I}
    (hrun : Run step DropsLastGuard (initial dirs disk) es s) {dir : D}
    (hclosing : Closing s dir) :
    isVaultClosingAt s dir = true ∧ anyClosing s = true := by
  have hinv : GuardsMarked s :=
    hrun.invariant GuardsMarked (guardsMarked_initial dirs disk)
      fun _ _ _ => guardsMarked_step
  obtain ⟨t, htaken⟩ := hclosing
  have hmem := hinv t dir (guardDir_of_takenDir htaken)
  refine ⟨decide_eq_true hmem, decide_eq_true ?_⟩
  exact Finset.ne_empty_of_mem hmem

/-! ## Concrete runs -/

instance [Fintype T] (s : State T D I) (e : T × Event D I) (s' : State T D I) :
    Decidable (DropsLastGuard s e s') := by
  unfold DropsLastGuard
  infer_instance

/-- A call that performs `n` steps, none of which fails. -/
def steps (t : T) (call : Call D I) (n : ℕ) : List (T × Event D I) :=
  (t, .call call) :: List.replicate n (t, .advance true)

/-- Three calls, one directory with index `0` on disk. -/
def sampleState : State (Fin 3) ℕ ℕ :=
  initial {0} fun dir => if dir = 0 then some 0 else none

instance neZero_three : NeZero 3 := ⟨Nat.succ_ne_zero 2⟩

/-- Open, then close up to the flush. -/
def openThenClose : List (Fin 3 × Event ℕ ℕ) :=
  steps 0 (.openVault 0 .sessionRam) 7 ++ steps 1 (.closeVault 0 false) 3

theorem closing_marked_openThenClose :
    ∃ s, Run step DropsLastGuard sampleState openThenClose s ∧ Closing s 0 ∧
      isVaultClosingAt s 0 = true ∧ anyClosing s = true := by
  obtain ⟨s, hrun, htaken⟩ := exists_run_of_execute step DropsLastGuard
    openThenClose sampleState (fun s => decide ((s.pc 1).takenDir = some 0))
    (by decide +kernel)
  have hclosing : Closing s 0 := ⟨1, of_decide_eq_true htaken⟩
  exact ⟨s, hrun, hclosing, closing_marked hrun hclosing⟩

/-- A second close finds no session and drops its guard while the first one is
about to flush. -/
def overlappingCloses : List (Fin 3 × Event ℕ ℕ) :=
  openThenClose ++ steps 2 (.closeVault 0 false) 3

/-- The mark is gone although the first close still has the session. -/
theorem overlappingCloses_unmarked :
    ∃ s, Run step Always sampleState overlappingCloses s ∧ Closing s 0 ∧
      isVaultClosingAt s 0 = false ∧ anyClosing s = false := by
  obtain ⟨s, hrun, htest⟩ := exists_run_of_execute step Always
    overlappingCloses sampleState
    (fun s => decide ((s.pc 1).takenDir = some 0) && !isVaultClosingAt s 0 &&
      !anyClosing s) (by decide +kernel)
  simp only [Bool.and_eq_true, Bool.not_eq_true', decide_eq_true_eq] at htest
  exact ⟨s, hrun, ⟨1, htest.1.1⟩, htest.1.2, htest.2⟩

end Upriv.Session
