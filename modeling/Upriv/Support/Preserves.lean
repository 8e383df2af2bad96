import Upriv.Support.Fallible
import Mathlib.Order.Defs.Unbundled

/-!
# What a computation leaves alone

A preorder on states says what is kept: a computation preserves it when the
state it leaves is related to the state it started from, whatever the outcome.
Some computations keep it only when they fail.
-/

namespace Upriv.FallibleM

variable {ε σ α β : Type} (R : σ → σ → Prop)

def Preserves (x : FallibleM ε σ α) : Prop := ∀ s, R s (exec x s).2

/-- A property of the state that a step keeps. -/
def Keeps (P : σ → Prop) (s s' : σ) : Prop := P s → P s'

instance isPreorder_keeps (P : σ → Prop) : IsPreorder σ (Keeps P) where
  refl _ := id
  trans _ _ _ h h' := h' ∘ h

/-- A failed run keeps `R`. -/
def PreservesOnError (x : FallibleM ε σ α) : Prop :=
  ∀ s e s', exec x s = (.error e, s') → R s s'

variable {R}

theorem Preserves.exec_eq {x : FallibleM ε σ α} (h : Preserves R x) {s s' : σ}
    {r : Except ε α} (hrun : exec x s = (r, s')) : R s s' := by
  have hkept := h s
  rwa [hrun] at hkept

theorem Preserves.mono {R' : σ → σ → Prop} {x : FallibleM ε σ α} (h : Preserves R x)
    (hle : ∀ s s', R s s' → R' s s') : Preserves R' x :=
  fun s => hle _ _ (h s)

theorem Preserves.onError {x : FallibleM ε σ α} (h : Preserves R x) :
    PreservesOnError R x :=
  fun _ _ _ hrun => h.exec_eq hrun

/-! ## Single steps -/

section
variable [Std.Refl R]

theorem preserves_pure (a : α) : Preserves R (pure a : FallibleM ε σ α) :=
  fun s => Std.Refl.refl s

theorem preserves_throw (e : ε) : Preserves R (throw e : FallibleM ε σ α) :=
  fun s => Std.Refl.refl s

theorem preserves_get : Preserves R (get : FallibleM ε σ σ) :=
  fun s => Std.Refl.refl s

theorem preserves_ofExcept (x : Except ε α) :
    Preserves R (ofExcept x : FallibleM ε σ α) := by
  cases x
  · exact preserves_throw _
  · exact preserves_pure _

theorem preserves_ensure (c : Prop) [Decidable c] (e : ε) :
    Preserves R (ensure c e : FallibleM ε σ Unit) := by
  unfold ensure
  split
  · exact preserves_pure _
  · exact preserves_throw _

end

theorem preserves_op {f : σ → Except ε α × σ} (h : ∀ s, R s (f s).2) :
    Preserves R (op f) := h

theorem preserves_attempt {x : FallibleM ε σ α} (h : Preserves R x) :
    Preserves R (attempt x) := h

/-! ## Sequences -/

section
variable [IsTrans σ R]

theorem preserves_bind {x : FallibleM ε σ α} {f : α → FallibleM ε σ β}
    (hx : Preserves R x) (hf : ∀ a, Preserves R (f a)) : Preserves R (x >>= f) := by
  intro s
  rw [exec_bind]
  have hfirst := hx s
  revert hfirst
  rcases exec x s with ⟨_ | a, t⟩
  · exact id
  · exact fun hfirst => IsTrans.trans _ _ _ hfirst (hf a t)

theorem preservesOnError_bind {x : FallibleM ε σ α} {f : α → FallibleM ε σ β}
    (hx : Preserves R x) (hf : ∀ a, PreservesOnError R (f a)) :
    PreservesOnError R (x >>= f) := by
  intro s e s'' hrun
  rw [exec_bind] at hrun
  have hfirst := hx s
  revert hrun hfirst
  rcases exec x s with ⟨_ | a, t⟩
  · rintro ⟨⟩
    exact id
  · exact fun hrun hfirst => IsTrans.trans _ _ _ hfirst (hf a t e s'' hrun)

end

/-- What follows an effect that errors undo must not fail. -/
theorem preservesOnError_bind_of_succeeds {x : FallibleM ε σ α}
    {f : α → FallibleM ε σ β} (hx : PreservesOnError R x)
    (hf : ∀ a s, ∃ b, (exec (f a) s).1 = .ok b) : PreservesOnError R (x >>= f) := by
  intro s e s'' hrun
  rw [exec_bind] at hrun
  rcases hfirst : exec x s with ⟨_ | a, t⟩
  · rw [hfirst] at hrun
    cases hrun
    exact hx s _ _ hfirst
  · rw [hfirst] at hrun
    obtain ⟨b, hb⟩ := hf a t
    rw [show exec (f a) t = (.error e, s'') from hrun] at hb
    cases hb

theorem preserves_forM [IsPreorder σ R] {xs : List α} {f : α → FallibleM ε σ PUnit}
    (h : ∀ x, Preserves R (f x)) : Preserves R (forM xs f) := by
  induction xs with
  | nil => exact preserves_pure _
  | cons x xs ih =>
      rw [List.forM_cons]
      exact preserves_bind (h x) fun _ => ih

/-! ## Which errors -/

/-- Every error of `x` is one of `P`. -/
def Errors (P : ε → Prop) (x : FallibleM ε σ α) : Prop :=
  ∀ s e s', exec x s = (.error e, s') → P e

section
variable {P : ε → Prop}

theorem errors_pure (a : α) : Errors P (pure a : FallibleM ε σ α) := by
  intro s e s' h
  cases h

theorem errors_throw {e : ε} (he : P e) : Errors P (throw e : FallibleM ε σ α) := by
  intro s e' s' h
  cases h
  exact he

theorem errors_get : Errors P (get : FallibleM ε σ σ) := by
  intro s e s' h
  cases h

theorem errors_attempt (x : FallibleM ε σ α) : Errors P (attempt x) := by
  intro s e s' h
  cases h

theorem errors_ofExcept {x : Except ε α} (h : ∀ e, x = .error e → P e) :
    Errors P (ofExcept x : FallibleM ε σ α) := by
  intro s e s' hrun
  rw [exec_ofExcept] at hrun
  exact h e (congrArg Prod.fst hrun)

theorem errors_ensure {c : Prop} [Decidable c] {e : ε} (he : P e) :
    Errors P (ensure c e : FallibleM ε σ Unit) := by
  unfold ensure
  split
  · exact errors_pure _
  · exact errors_throw he

theorem errors_bind {x : FallibleM ε σ α} {f : α → FallibleM ε σ β} (hx : Errors P x)
    (hf : ∀ a, Errors P (f a)) : Errors P (x >>= f) := by
  intro s e s' h
  rw [exec_bind] at h
  split at h
  · exact hf _ _ _ _ h
  · rename_i hfirst
    cases h
    exact hx _ _ _ hfirst

end

end Upriv.FallibleM
