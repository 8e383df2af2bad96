import Upriv.Support.Preserves

/-!
# Computations that succeed

A total triple: from every state with the precondition the computation ends without an
error, and its result and the state it leaves have the postcondition.
-/

namespace Upriv.FallibleM

variable {ε σ α β : Type} {P P' : σ → Prop} {Q Q' : α → σ → Prop} {R : β → σ → Prop}
  {x : FallibleM ε σ α}

def Succeeds (P : σ → Prop) (x : FallibleM ε σ α) (Q : α → σ → Prop) : Prop :=
  ∀ s, P s → ∃ a s', exec x s = (.ok a, s') ∧ Q a s'

namespace Succeeds

theorem mono (h : Succeeds P x Q) (hP : ∀ s, P' s → P s) (hQ : ∀ a s, Q a s → Q' a s) :
    Succeeds P' x Q' := by
  intro s hs
  obtain ⟨a, s', hrun, hpost⟩ := h s (hP s hs)
  exact ⟨a, s', hrun, hQ a s' hpost⟩

theorem pure {a : α} (h : ∀ s, P s → Q a s) :
    Succeeds P (Pure.pure a : FallibleM ε σ α) Q :=
  fun s hs => ⟨a, s, rfl, h s hs⟩

theorem bind {f : α → FallibleM ε σ β} (hx : Succeeds P x Q)
    (hf : ∀ a, Succeeds (Q a) (f a) R) : Succeeds P (x >>= f) R := by
  intro s hs
  obtain ⟨a, s', hrun, hmid⟩ := hx s hs
  rw [exec_bind_of_ok hrun]
  exact hf a s' hmid

theorem op {f : σ → Except ε α × σ} (h : ∀ s, P s → ∃ a s', f s = (.ok a, s') ∧ Q a s') :
    Succeeds P (FallibleM.op f) Q := h

/-- A read of the state hands it on. -/
theorem get_bind {f : σ → FallibleM ε σ β} (h : ∀ s, P s → Succeeds (· = s) (f s) R) :
    Succeeds P (get >>= f) R := by
  intro s hs
  rw [exec_bind, exec_get]
  exact h s hs s rfl

theorem ofExcept {v : Except ε α} {a : α} (hv : v = .ok a) (h : ∀ s, P s → Q a s) :
    Succeeds P (FallibleM.ofExcept v : FallibleM ε σ α) Q := by
  subst hv
  exact pure h

theorem ensure {c : Prop} [Decidable c] {e : ε} (hc : c) :
    Succeeds P (FallibleM.ensure c e : FallibleM ε σ Unit) fun _ => P := by
  rw [FallibleM.ensure, if_pos hc]
  exact pure fun _ hs => hs

/-- An attempt never fails, and it leaves what the computation preserves. -/
theorem attempt {rel : σ → σ → Prop} (hx : Preserves rel x)
    (hP : ∀ s s', P s → rel s s' → P s') :
    Succeeds P (FallibleM.attempt x) fun _ => P :=
  fun s hs => ⟨_, _, exec_attempt x s, hP s _ hs (hx s)⟩

/-- What every round keeps, the loop keeps. -/
theorem forM {xs : List α} {f : α → FallibleM ε σ PUnit}
    (h : ∀ x ∈ xs, Succeeds P (f x) fun _ => P) : Succeeds P (forM xs f) fun _ => P := by
  induction xs with
  | nil => exact pure fun _ hs => hs
  | cons x xs ih =>
      rw [List.forM_cons]
      exact bind (h x List.mem_cons_self) fun _ => ih fun y hy => h y (List.mem_cons_of_mem x hy)

end Succeeds

end Upriv.FallibleM
