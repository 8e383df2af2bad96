import Mathlib.Data.List.Forall2
import Mathlib.Data.List.Infix
import Mathlib.Tactic.Common

/-!
# Runs of a transition system under a step condition

A system is a partial step function on states and events.  A run records its
events; every step of it satisfies a condition on the state before, the event
and the state after.  The condition `Always` gives all runs.
-/

namespace Upriv

variable {S E : Type} {step : S → E → Option S} {Ok Ok' : S → E → S → Prop}

/-- Runs whose steps all satisfy `Ok`. -/
inductive Run (step : S → E → Option S) (Ok : S → E → S → Prop) :
    S → List E → S → Prop where
  | refl (s : S) : Run step Ok s [] s
  | tail {s s' s'' : S} {es : List E} {e : E} (hrun : Run step Ok s es s')
      (hstep : step s' e = some s'') (hok : Ok s' e s'') :
      Run step Ok s (es ++ [e]) s''

/-- No condition. -/
def Always (_ : S) (_ : E) (_ : S) : Prop := True

namespace Run

theorem cons {s s' s'' : S} {e : E} {es : List E} (hstep : step s e = some s')
    (hok : Ok s e s') (hrun : Run step Ok s' es s'') :
    Run step Ok s (e :: es) s'' := by
  induction hrun with
  | refl => exact .tail (.refl s) hstep hok
  | tail _ hstep' hok' ih => exact .tail ih hstep' hok'

theorem mono {s s' : S} {es : List E} (h : ∀ s e s', Ok s e s' → Ok' s e s')
    (hrun : Run step Ok s es s') : Run step Ok' s es s' := by
  induction hrun with
  | refl => exact .refl _
  | tail _ hstep hok ih => exact .tail ih hstep (h _ _ _ hok)

/-- What the start satisfies and every allowed step preserves holds at the
end. -/
theorem invariant (Inv : S → Prop) {s s' : S} {es : List E} (h0 : Inv s)
    (hinv : ∀ s e s', Inv s → step s e = some s' → Ok s e s' → Inv s')
    (hrun : Run step Ok s es s') : Inv s' := by
  induction hrun with
  | refl => exact h0
  | tail _ hstep hok ih => exact hinv _ _ _ ih hstep hok

/-- An invariant strengthens the step condition. -/
theorem strengthen (Inv : S → Prop) {s s' : S} {es : List E} (h0 : Inv s)
    (hinv : ∀ s e s', Inv s → step s e = some s' → Ok s e s' → Inv s')
    (hok' : ∀ s e s', Inv s → step s e = some s' → Ok s e s' → Ok' s e s')
    (hrun : Run step Ok s es s') : Run step Ok' s es s' := by
  induction hrun with
  | refl => exact .refl _
  | tail hrun hstep hok ih =>
      have hbefore := hrun.invariant Inv h0 hinv
      exact .tail ih hstep (hok' _ _ _ hbefore hstep hok)

/-- Where every step does one operation on what is seen of the state, a run does the
operations of its steps one after another. -/
theorem exists_operations {A O : Type} {apply : A → O → A} {Does : E → O → Prop}
    (Inv : S → Prop) (view : S → A) {s s' : S} {es : List E} (h0 : Inv s)
    (hstep : ∀ s e s', Inv s → step s e = some s' → Ok s e s' →
      Inv s' ∧ ∃ op, Does e op ∧ view s' = apply (view s) op)
    (hrun : Run step Ok s es s') :
    Inv s' ∧ ∃ ops, List.Forall₂ Does es ops ∧ view s' = ops.foldl apply (view s) := by
  induction hrun with
  | refl => exact ⟨h0, [], .nil, rfl⟩
  | tail _ hlast hok ih =>
      obtain ⟨hinv, ops, hops, hview⟩ := ih
      obtain ⟨hinv', op, hop, hview'⟩ := hstep _ _ _ hinv hlast hok
      refine ⟨hinv', ops ++ [op], List.rel_append hops (.cons hop .nil), ?_⟩
      rw [hview', hview, List.foldl_append]
      rfl

/-- A run that ends where `P` holds but did not start there has a step that
made `P` true. -/
theorem exists_entry (P : S → Prop) {s s' : S} {es : List E}
    (hrun : Run step Ok s es s') (hstart : ¬ P s) (hend : P s') :
    ∃ es₁ e es₂ m m', es = es₁ ++ e :: es₂ ∧ Run step Ok s es₁ m ∧
      step m e = some m' ∧ Ok m e m' ∧ Run step Ok m' es₂ s' ∧ ¬ P m ∧ P m' := by
  induction hrun with
  | refl => exact absurd hend hstart
  | @tail s₁ s₂ es e hrun hstep hok ih =>
      by_cases hmid : P s₁
      · obtain ⟨es₁, e₁, es₂, m, m', rfl, hbefore, hentry, hok₁, hafter, hP⟩ := ih hmid
        exact ⟨es₁, e₁, es₂ ++ [e], m, m', by simp, hbefore, hentry, hok₁,
          hafter.tail hstep hok, hP⟩
      · exact ⟨es, e, [], s₁, s₂, rfl, hrun, hstep, hok, .refl _, hmid, hend⟩

end Run

/-! ## Executing a list of events -/

instance (s : S) (e : E) (s' : S) : Decidable (Always s e s') :=
  isTrue trivial

/-- Perform the events in order, checking the condition at every step. -/
def execute (step : S → E → Option S) (Ok : S → E → S → Prop)
    [∀ s e s', Decidable (Ok s e s')] : List E → S → Option S
  | [], s => some s
  | e :: es, s =>
    match step s e with
    | none => none
    | some s' => if Ok s e s' then execute step Ok es s' else none

section
variable [∀ s e s', Decidable (Ok s e s')]

/-- What was executed is a run. -/
theorem run_of_execute {es : List E} {s s' : S}
    (h : execute step Ok es s = some s') : Run step Ok s es s' := by
  induction es generalizing s with
  | nil =>
      cases h
      exact .refl _
  | cons e es ih =>
      rw [execute] at h
      split at h
      · cases h
      · rename_i t hstep
        split at h
        · rename_i hok
          exact .cons hstep hok (ih h)
        · cases h

theorem execute_append (es es' : List E) (s : S) :
    execute step Ok (es ++ es') s = (execute step Ok es s).bind (execute step Ok es') := by
  induction es generalizing s with
  | nil => rfl
  | cons e es ih =>
      simp only [List.cons_append, execute]
      split
      · rfl
      · split
        · exact ih _
        · rfl

theorem execute_of_run {es : List E} {s s' : S} (hrun : Run step Ok s es s') :
    execute step Ok es s = some s' := by
  induction hrun with
  | refl => rfl
  | tail _ hstep hok ih => simp [execute_append, ih, execute, hstep, hok]

/-- A test that holds after every initial part of an execution holds in every
state of the run. -/
theorem test_of_execute_inits {es : List E} {s : S} (test : S → Bool)
    (h : (es.inits.all fun es₁ => (execute step Ok es₁ s).all test) = true)
    {es₁ es₂ : List E} (hes : es = es₁ ++ es₂) {m : S}
    (hrun : Run step Ok s es₁ m) : test m = true := by
  have hinit := List.all_eq_true.mp h es₁ (by simp [hes])
  simpa [execute_of_run hrun] using hinit

/-- A test that holds at the end of an execution holds at the end of a run. -/
theorem exists_run_of_execute (step : S → E → Option S) (Ok : S → E → S → Prop)
    [∀ s e s', Decidable (Ok s e s')] (es : List E) (s : S) (test : S → Bool)
    (h : (execute step Ok es s).any test = true) :
    ∃ s', Run step Ok s es s' ∧ test s' = true := by
  cases hexec : execute step Ok es s with
  | none => simp [hexec] at h
  | some s' =>
      refine ⟨s', run_of_execute hexec, ?_⟩
      simpa [hexec] using h

/-- A test of the states before and after one more step. -/
theorem exists_step_of_execute (step : S → E → Option S) (Ok : S → E → S → Prop)
    [∀ s e s', Decidable (Ok s e s')] (es : List E) (e : E) (s : S)
    (test : S → S → Bool)
    (h : ((execute step Ok es s).any fun m => (step m e).any (test m)) = true) :
    ∃ m m', Run step Ok s es m ∧ step m e = some m' ∧ test m m' = true := by
  obtain ⟨m, hrun, htest⟩ := exists_run_of_execute step Ok es s _ h
  obtain ⟨m', hstep, htest⟩ := (Option.any_eq_true _ _).mp htest
  exact ⟨m, m', hrun, hstep, htest⟩

end

end Upriv
