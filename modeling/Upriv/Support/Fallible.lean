import Mathlib.Data.List.Basic
import Mathlib.Tactic.Common

/-!
# Computations that may stop with an error and keep their effects

`ExceptT ε (StateM σ)` run on a start state: an outcome together with the
state that was reached, also when the outcome is an error.  The lemmas take a
successful run apart into the successful runs of its parts; the loop rule
carries an invariant through a `forM`.
-/

namespace Upriv

abbrev FallibleM (ε σ : Type) := ExceptT ε (StateM σ)

namespace FallibleM

variable {ε σ α β : Type}

/-- Run a computation: its outcome and the state it leaves. -/
def exec (x : FallibleM ε σ α) (s : σ) : Except ε α × σ :=
  Id.run (StateT.run (ExceptT.run x) s)

@[simp] theorem exec_pure (a : α) (s : σ) :
    exec (pure a : FallibleM ε σ α) s = (.ok a, s) := rfl

@[simp] theorem exec_throw (e : ε) (s : σ) :
    exec (throw e : FallibleM ε σ α) s = (.error e, s) := rfl

@[simp] theorem exec_get (s : σ) :
    exec (get : FallibleM ε σ σ) s = (.ok s, s) := rfl

@[simp] theorem exec_set (s t : σ) :
    exec (set t : FallibleM ε σ PUnit) s = (.ok ⟨⟩, t) := rfl

@[simp] theorem exec_modify (f : σ → σ) (s : σ) :
    exec (modify f : FallibleM ε σ PUnit) s = (.ok ⟨⟩, f s) := rfl

theorem exec_bind (x : FallibleM ε σ α) (f : α → FallibleM ε σ β) (s : σ) :
    exec (x >>= f) s =
      match exec x s with
      | (.ok a, s') => exec (f a) s'
      | (.error e, s') => (.error e, s') := by
  simp only [exec, ExceptT.run_bind, StateT.run_bind, Id.run_bind]
  rcases Id.run (StateT.run (ExceptT.run x) s) with ⟨_ | _, _⟩ <;> rfl

theorem exec_bind_of_ok {x : FallibleM ε σ α} {s s' : σ} {a : α}
    (h : exec x s = (.ok a, s')) (f : α → FallibleM ε σ β) :
    exec (x >>= f) s = exec (f a) s' := by
  rw [exec_bind, h]

theorem exec_bind_of_error {x : FallibleM ε σ α} {s s' : σ} {e : ε}
    (h : exec x s = (.error e, s')) (f : α → FallibleM ε σ β) :
    exec (x >>= f) s = (.error e, s') := by
  rw [exec_bind, h]

theorem exec_bind_eq_ok_iff {x : FallibleM ε σ α} {f : α → FallibleM ε σ β}
    {s s'' : σ} {b : β} :
    exec (x >>= f) s = (.ok b, s'') ↔
      ∃ a s', exec x s = (.ok a, s') ∧ exec (f a) s' = (.ok b, s'') := by
  rw [exec_bind]
  rcases exec x s with ⟨_ | a, s'⟩
  · simp
  · simp

/-- What the first part establishes and the second part preserves holds at the
end, whether or not the second part was reached. -/
theorem exec_bind_invariant {x : FallibleM ε σ α} {f : α → FallibleM ε σ β}
    (Inv : σ → Prop) {s : σ} (hx : Inv (exec x s).2)
    (hf : ∀ a t, Inv t → Inv (exec (f a) t).2) : Inv (exec (x >>= f) s).2 := by
  rw [exec_bind]
  revert hx
  rcases exec x s with ⟨_ | a, t⟩
  · exact id
  · exact hf a t

theorem exists_exec_eq {x : FallibleM ε σ α} {s : σ} {r : Except ε α}
    (h : (exec x s).1 = r) : ∃ s', exec x s = (r, s') :=
  ⟨_, Prod.ext h rfl⟩

/-- A computation whose parts succeed from every state succeeds. -/
theorem exec_bind_succeeds {x : FallibleM ε σ α} {f : α → FallibleM ε σ β}
    {s : σ} {a : α} {b : β} (hx : (exec x s).1 = .ok a)
    (hf : ∀ t, (exec (f a) t).1 = .ok b) : (exec (x >>= f) s).1 = .ok b := by
  rw [exec_bind]
  revert hx
  rcases exec x s with ⟨_ | _, t⟩
  · simp
  · rintro ⟨⟩
    exact hf t

/-- One operation, given by its outcome and the state it leaves. -/
def op (f : σ → Except ε α × σ) : FallibleM ε σ α :=
  ExceptT.mk fun s => f s

@[simp] theorem exec_op (f : σ → Except ε α × σ) (s : σ) :
    exec (op f) s = f s := rfl

/-- Run a computation and go on with its outcome, also when it is an error. -/
def attempt (x : FallibleM ε σ α) : FallibleM ε σ (Except ε α) :=
  op fun s => (.ok (exec x s).1, (exec x s).2)

@[simp] theorem exec_attempt (x : FallibleM ε σ α) (s : σ) :
    exec (attempt x) s = (.ok (exec x s).1, (exec x s).2) := rfl

theorem exec_attempt_bind (x : FallibleM ε σ α) (f : Except ε α → FallibleM ε σ β) (s : σ) :
    exec (attempt x >>= f) s = exec (f (exec x s).1) (exec x s).2 :=
  exec_bind_of_ok (exec_attempt x s) f

/-- Embed a computation without effects. -/
def ofExcept : Except ε α → FallibleM ε σ α
  | .ok a => pure a
  | .error e => throw e

@[simp] theorem exec_ofExcept (x : Except ε α) (s : σ) :
    exec (ofExcept x : FallibleM ε σ α) s = (x, s) := by
  cases x <;> rfl

theorem exec_ofExcept_bind (x : Except ε α) (f : α → FallibleM ε σ β) (s : σ) :
    exec (ofExcept x >>= f) s =
      match x with
      | .ok a => exec (f a) s
      | .error e => (.error e, s) := by
  rw [exec_bind, exec_ofExcept]
  cases x <;> rfl

theorem exec_ofExcept_bind_eq_ok_iff {x : Except ε α}
    {f : α → FallibleM ε σ β} {s s' : σ} {b : β} :
    exec (ofExcept x >>= f) s = (.ok b, s') ↔
      ∃ a, x = .ok a ∧ exec (f a) s = (.ok b, s') := by
  simp [exec_bind_eq_ok_iff, Prod.mk.injEq]

/-- Stop with an error unless a condition holds. -/
def ensure (c : Prop) [Decidable c] (e : ε) : FallibleM ε σ Unit :=
  if c then pure () else throw e

theorem exec_ensure_bind_eq_ok_iff {c : Prop} [Decidable c] {e : ε}
    {f : Unit → FallibleM ε σ β} {s s' : σ} {b : β} :
    exec (ensure c e >>= f) s = (.ok b, s') ↔ c ∧ exec (f ()) s = (.ok b, s') := by
  by_cases hc : c
  · simp [ensure, hc]
  · simp [ensure, hc]

/-! ## Loops -/

/-- What each successful iteration carries from one index to the next holds
after a successful loop. -/
theorem forM_ok_induction {xs : List α} {f : α → FallibleM ε σ PUnit}
    (Inv : ℕ → σ → Prop)
    (hstep : ∀ i x s s', xs[i]? = some x → Inv i s →
      exec (f x) s = (.ok ⟨⟩, s') → Inv (i + 1) s')
    {s s' : σ} (h0 : Inv 0 s) (hrun : exec (forM xs f) s = (.ok ⟨⟩, s')) :
    Inv xs.length s' := by
  induction xs generalizing Inv s with
  | nil =>
      simp only [List.forM_nil, exec_pure, Prod.mk.injEq, true_and] at hrun
      exact hrun ▸ h0
  | cons x xs ih =>
      rw [List.forM_cons, exec_bind_eq_ok_iff] at hrun
      obtain ⟨_, s₁, hfirst, hrest⟩ := hrun
      have h1 : Inv 1 s₁ := hstep 0 x s s₁ (by simp) h0 hfirst
      exact ih (fun i => Inv (i + 1))
        (fun i y t t' hy hinv hrun => hstep (i + 1) y t t' (by simpa using hy)
          hinv hrun) h1 hrest

/-- A loop that fails has gone through some iterations and failed in the next
one. -/
theorem forM_error_induction {xs : List α} {f : α → FallibleM ε σ PUnit}
    (Inv : ℕ → σ → Prop)
    (hstep : ∀ i x s s', xs[i]? = some x → Inv i s →
      exec (f x) s = (.ok ⟨⟩, s') → Inv (i + 1) s')
    {s s' : σ} {e : ε} (h0 : Inv 0 s) (hrun : exec (forM xs f) s = (.error e, s')) :
    ∃ i x t, xs[i]? = some x ∧ Inv i t ∧ exec (f x) t = (.error e, s') := by
  induction xs generalizing Inv s with
  | nil => simp at hrun
  | cons x xs ih =>
      rw [List.forM_cons, exec_bind] at hrun
      rcases hfirst : exec (f x) s with ⟨e' | _, s₁⟩
      · rw [hfirst] at hrun
        cases hrun
        exact ⟨0, x, s, rfl, h0, hfirst⟩
      · rw [hfirst] at hrun
        have h1 : Inv 1 s₁ := hstep 0 x s s₁ rfl h0 hfirst
        obtain ⟨i, y, t, hy, hinv, herror⟩ := ih (fun i => Inv (i + 1))
          (fun i y t t' hy hinv hrun => hstep (i + 1) y t t' (by simpa using hy)
            hinv hrun) h1 hrun
        exact ⟨i + 1, y, t, by simpa using hy, hinv, herror⟩

/-- What every iteration preserves, whatever its outcome, the loop preserves. -/
theorem forM_invariant {xs : List α} {f : α → FallibleM ε σ PUnit}
    (Inv : σ → Prop)
    (hstep : ∀ x ∈ xs, ∀ s, Inv s → Inv (exec (f x) s).2)
    {s : σ} (h0 : Inv s) : Inv (exec (forM xs f) s).2 := by
  induction xs generalizing s with
  | nil => exact h0
  | cons x xs ih =>
      rw [List.forM_cons]
      apply exec_bind_invariant Inv (hstep x List.mem_cons_self s h0)
      intro _ t ht
      exact ih (fun y hy => hstep y (List.mem_cons_of_mem x hy)) ht

theorem forM_succeeds {xs : List α} {f : α → FallibleM ε σ PUnit}
    (h : ∀ x ∈ xs, ∀ s, (exec (f x) s).1 = .ok ⟨⟩) (s : σ) :
    (exec (forM xs f) s).1 = .ok ⟨⟩ := by
  induction xs generalizing s with
  | nil => rfl
  | cons x xs ih =>
      rw [List.forM_cons]
      apply exec_bind_succeeds (h x List.mem_cons_self s)
      exact ih fun y hy => h y (List.mem_cons_of_mem x hy)

end FallibleM

theorem except_bind_eq_ok {ε α β : Type} {x : Except ε α} {f : α → Except ε β}
    {b : β} : (x >>= f) = .ok b ↔ ∃ a, x = .ok a ∧ f a = .ok b := by
  cases x with
  | error e => simp [bind, Except.bind]
  | ok a => simp [bind, Except.bind]

@[simp] theorem except_ok_bind {ε α β : Type} (a : α) (f : α → Except ε β) :
    (Except.ok a >>= f) = f a := rfl

@[simp] theorem except_error_bind {ε α β : Type} (e : ε) (f : α → Except ε β) :
    (Except.error e >>= f) = .error e := rfl

/-! ## Loops that append what each round yields -/

section
variable {ε α β : Type} {f f' : α → Except ε (List β)} {xs : List α}

/-- `for x in xs { out.extend(f(x)?) }`. -/
def extendM (f : α → Except ε (List β)) (xs : List α) (out : List β) :
    Except ε (List β) :=
  xs.foldlM (fun out x => do
    let piece ← f x
    Except.ok (out ++ piece)) out

theorem extendM_cons (x : α) (out : List β) :
    extendM f (x :: xs) out = (f x).bind fun piece => extendM f xs (out ++ piece) := by
  simp only [extendM, List.foldlM_cons]
  cases f x <;> rfl

theorem extendM_of_ok {g : α → List β} (h : ∀ x ∈ xs, f x = .ok (g x))
    (out : List β) : extendM f xs out = .ok (out ++ xs.flatMap g) := by
  induction xs generalizing out with
  | nil => simp [extendM, pure, Except.pure]
  | cons x xs ih =>
      rw [extendM_cons, h x List.mem_cons_self]
      simp only [Except.bind]
      rw [ih fun y hy => h y (List.mem_cons_of_mem x hy)]
      simp

theorem extendM_eq_ok {out res : List β} (h : extendM f xs out = .ok res) :
    ∃ g, (∀ x ∈ xs, f x = .ok (g x)) ∧ res = out ++ xs.flatMap g := by
  let g : α → List β := fun x => match f x with
    | .ok piece => piece
    | .error _ => []
  have hall : ∀ x ∈ xs, f x = .ok (g x) := by
    induction xs generalizing out with
    | nil => simp
    | cons x xs ih =>
        rw [extendM_cons] at h
        cases hx : f x with
        | error e => simp [hx, Except.bind] at h
        | ok piece =>
            simp only [hx, Except.bind] at h
            intro y hy
            rcases List.mem_cons.mp hy with rfl | hy
            · simp [g, hx]
            · exact ih h y hy
  refine ⟨g, hall, ?_⟩
  rw [extendM_of_ok hall] at h
  exact (Except.ok.inj h).symm

theorem extendM_congr (h : ∀ x ∈ xs, f x = f' x) (out : List β) :
    extendM f xs out = extendM f' xs out := by
  induction xs generalizing out with
  | nil => rfl
  | cons x xs ih =>
      have htail : ∀ y ∈ xs, f y = f' y :=
        fun y hy => h y (List.mem_cons_of_mem x hy)
      rw [extendM_cons, extendM_cons, h x List.mem_cons_self]
      congr 1
      funext piece
      exact ih htail _

end

end Upriv
