import Mathlib.Data.List.DropRight
import Mathlib.Tactic.Common

/-!
# Backtracking matchers

Regular expressions as lists of successes: a matcher returns the ways in which it
matches the start of a text, in the order in which a backtracking engine tries
them.  Repetitions are greedy, so the longest one comes first.
-/

namespace Upriv

/-- The matches at the start of a text, each with the text after it. -/
def Matcher (σ τ : Type) := List σ → List (τ × List σ)

namespace Matcher

variable {σ τ υ : Type}

instance : Monad (Matcher σ) where
  pure value := fun text => [(value, text)]
  bind first next := fun text => (first text).flatMap fun found => next found.1 found.2

/-! ## The operators -/

/-- One character of a class. -/
def one (p : σ → Bool) : Matcher σ σ
  | [] => []
  | c :: cs => if p c then [(c, cs)] else []

/-- `p{n}` -/
def repeated (p : σ → Bool) : ℕ → Matcher σ (List σ)
  | 0 => pure []
  | n + 1 => do
    let c ← one p
    let cs ← repeated p n
    pure (c :: cs)

/-- `p*` -/
def star (p : σ → Bool) : Matcher σ (List σ)
  | [] => [([], [])]
  | c :: cs =>
    if p c then (star p cs).map (fun found => (c :: found.1, found.2)) ++ [([], c :: cs)]
    else [([], c :: cs)]

/-- `p+` -/
def plus (p : σ → Bool) : Matcher σ (List σ) := do
  let c ← one p
  let cs ← star p
  pure (c :: cs)

/-- A fixed word. -/
def word [DecidableEq σ] (expected : List σ) : Matcher σ (List σ) := fun text =>
  if expected <+: text then [(expected, text.drop expected.length)] else []

/-- `(a|b|...)` -/
def oneOf (branches : List (Matcher σ τ)) : Matcher σ τ := fun text =>
  branches.flatMap fun branch => branch text

/-- `(?:...)?` -/
def optional (body : Matcher σ τ) : Matcher σ (Option τ) := fun text =>
  (body text).map (fun found => (some found.1, found.2)) ++ [(none, text)]

/-- `$` -/
def atEnd : Matcher σ Unit
  | [] => [((), [])]
  | _ :: _ => []

/-- What the engine answers: the first match it finds. -/
def firstMatch (matcher : Matcher σ τ) (text : List σ) : Option τ :=
  (matcher text).head?.map Prod.fst

/-! ## Soundness -/

theorem bind_apply (first : Matcher σ τ) (next : τ → Matcher σ υ) (text : List σ) :
    (first >>= next) text = (first text).flatMap fun found => next found.1 found.2 :=
  rfl

@[simp] theorem pure_apply (value : τ) (text : List σ) :
    (pure value : Matcher σ τ) text = [(value, text)] :=
  rfl

theorem bind_bind (first : Matcher σ τ) (second : τ → Matcher σ υ)
    {ω : Type} (third : υ → Matcher σ ω) :
    first >>= second >>= third = first >>= fun value => second value >>= third := by
  funext text
  rw [bind_apply, bind_apply, bind_apply, List.flatMap_assoc]
  rfl

theorem mem_bind {first : Matcher σ τ} {next : τ → Matcher σ υ} {text : List σ}
    {found : υ × List σ} :
    found ∈ (first >>= next) text ↔
      ∃ value rest, (value, rest) ∈ first text ∧ found ∈ next value rest := by
  rw [bind_apply, List.mem_flatMap]
  simp only [Prod.exists]

theorem mem_pure {value : τ} {text : List σ} {found : τ × List σ} :
    found ∈ (pure value : Matcher σ τ) text ↔ found = (value, text) := by
  rw [pure_apply, List.mem_singleton]

theorem mem_one {p : σ → Bool} {text rest : List σ} {c : σ} (h : (c, rest) ∈ one p text) :
    p c = true := by
  cases text with
  | nil => exact absurd h List.not_mem_nil
  | cons d ds =>
      rw [one] at h
      split at h
      · rename_i hd
        rw [List.mem_singleton, Prod.mk.injEq] at h
        rw [h.1]
        exact hd
      · exact absurd h List.not_mem_nil

theorem mem_star {p : σ → Bool} {text rest matched : List σ}
    (h : (matched, rest) ∈ star p text) : ∀ c ∈ matched, p c = true := by
  induction text generalizing matched with
  | nil =>
      rw [star, List.mem_singleton, Prod.mk.injEq] at h
      simp [h.1]
  | cons d ds ih =>
      rw [star] at h
      split at h
      · rename_i hd
        rw [List.mem_append, List.mem_map, List.mem_singleton, Prod.mk.injEq] at h
        rcases h with ⟨found, hfound, hcons⟩ | ⟨rfl, -⟩
        · rw [Prod.mk.injEq] at hcons
          rw [← hcons.1, List.forall_mem_cons]
          exact ⟨hd, ih (by rw [← hcons.2]; exact hfound)⟩
        · simp
      · rw [List.mem_singleton, Prod.mk.injEq] at h
        simp [h.1]

theorem mem_plus {p : σ → Bool} {text rest matched : List σ}
    (h : (matched, rest) ∈ plus p text) : matched ≠ [] ∧ ∀ c ∈ matched, p c = true := by
  obtain ⟨c, afterOne, hone, h⟩ := mem_bind.mp h
  obtain ⟨cs, afterStar, hstar, h⟩ := mem_bind.mp h
  rw [mem_pure, Prod.mk.injEq] at h
  rw [h.1]
  constructor
  · exact List.cons_ne_nil c cs
  · rw [List.forall_mem_cons]
    exact ⟨mem_one hone, mem_star hstar⟩

theorem mem_optional {body : Matcher σ τ} {text rest : List σ} {value : τ}
    (h : (some value, rest) ∈ optional body text) : (value, rest) ∈ body text := by
  rw [optional, List.mem_append, List.mem_map, List.mem_singleton] at h
  rcases h with ⟨found, hfound, hsome⟩ | h
  · rw [Prod.mk.injEq, Option.some.injEq] at hsome
    rw [← hsome.1, ← hsome.2]
    exact hfound
  · simp at h

theorem mem_of_firstMatch {matcher : Matcher σ τ} {text : List σ} {value : τ}
    (h : matcher.firstMatch text = some value) : ∃ rest, (value, rest) ∈ matcher text := by
  rw [firstMatch, Option.map_eq_some_iff] at h
  obtain ⟨⟨found, rest⟩, hhead, rfl⟩ := h
  exact ⟨rest, List.mem_of_mem_head? hhead⟩

/-! ## Runs of one class

A repetition backtracks only as far as what follows it can use.
-/

/-- A matcher that never starts with a character of the class. -/
def FailsOn (matcher : Matcher σ τ) (p : σ → Bool) : Prop :=
  ∀ c cs, p c = true → matcher (c :: cs) = []

theorem failsOn_plus_bind {p q : σ → Bool} (hdisjoint : ∀ c, p c = true → q c = false)
    (next : List σ → Matcher σ τ) : (plus q >>= next).FailsOn p := by
  intro c cs hp
  have hone : one q (c :: cs) = [] := by
    rw [one, if_neg (by rw [hdisjoint c hp]; exact Bool.false_ne_true)]
  rw [bind_apply, plus, bind_apply, hone, List.flatMap_nil, List.flatMap_nil]

theorem failsOn_atEnd_bind (p : σ → Bool) (next : Unit → Matcher σ τ) :
    (atEnd >>= next).FailsOn p := by
  intro c cs _
  rw [bind_apply, atEnd, List.flatMap_nil]

theorem failsOn_optional_bind {p : σ → Bool} {body : Matcher σ τ}
    {next : Option τ → Matcher σ υ} (hbody : body.FailsOn p)
    (hnext : (next none).FailsOn p) : (optional body >>= next).FailsOn p := by
  intro c cs hp
  rw [bind_apply, optional, hbody c cs hp, List.map_nil, List.nil_append,
    List.flatMap_cons, List.flatMap_nil, List.append_nil]
  exact hnext c cs hp

theorem failsOn_word_bind [DecidableEq σ] {p : σ → Bool} {c : σ} (hc : p c = false)
    (expected : List σ) (next : List σ → Matcher σ τ) :
    (word (c :: expected) >>= next).FailsOn p := by
  intro d ds hd
  have hword : word (c :: expected) (d :: ds) = [] := by
    rw [word, if_neg]
    rw [List.cons_prefix_cons]
    rintro ⟨rfl, -⟩
    rw [hc] at hd
    exact Bool.noConfusion hd
  rw [bind_apply, hword, List.flatMap_nil]

theorem failsOn_oneOf_bind {p : σ → Bool} {branches : List (Matcher σ τ)}
    (h : ∀ branch ∈ branches, branch.FailsOn p) (next : τ → Matcher σ υ) :
    (oneOf branches >>= next).FailsOn p := by
  intro c cs hc
  have hnone : oneOf branches (c :: cs) = [] := by
    rw [oneOf, List.flatMap_eq_nil_iff]
    intro branch hbranch
    exact h branch hbranch c cs hc
  rw [bind_apply, hnone, List.flatMap_nil]

/-- Only the whole run is left when what follows cannot start inside it. -/
theorem star_bind {p : σ → Bool} {next : List σ → Matcher σ τ}
    (hnext : ∀ matched, (next matched).FailsOn p) (text : List σ) :
    (star p >>= next) text =
      next (text.takeWhile p) (text.dropWhile p) := by
  induction text generalizing next with
  | nil => simp [bind_apply, star]
  | cons c cs ih =>
      rw [bind_apply, star]
      split
      · rename_i hc
        have hrest := @ih (fun matched => next (c :: matched)) fun matched =>
          hnext (c :: matched)
        rw [bind_apply] at hrest
        rw [List.flatMap_append, List.flatMap_map, List.flatMap_cons, List.flatMap_nil,
          List.append_nil, hnext [] c cs hc, List.append_nil, hrest,
          List.takeWhile_cons_of_pos hc, List.dropWhile_cons_of_pos hc]
      · rename_i hc
        rw [List.flatMap_cons, List.flatMap_nil, List.append_nil,
          List.takeWhile_cons_of_neg hc, List.dropWhile_cons_of_neg hc]

theorem plus_bind_cons {p : σ → Bool} {c : σ} (hc : p c = true) (cs : List σ)
    (next : List σ → Matcher σ τ) :
    (plus p >>= next) (c :: cs) =
      (star p >>= fun matched => next (c :: matched)) cs := by
  rw [bind_apply, plus, bind_apply, one, if_pos hc, List.flatMap_cons, List.flatMap_nil,
    List.append_nil, bind_apply, bind_apply, List.flatMap_assoc]
  congr 1
  funext found
  rw [pure_apply, List.flatMap_cons, List.flatMap_nil, List.append_nil]

/-- A run that what follows leaves whole is matched in one way. -/
theorem plus_bind_append {p : σ → Bool} {run rest : List σ} {next : List σ → Matcher σ τ}
    (hne : run ≠ []) (hrun : ∀ c ∈ run, p c = true)
    (hrest : ∀ c ∈ rest.head?, p c = false)
    (hnext : ∀ matched, (next matched).FailsOn p) :
    (plus p >>= next) (run ++ rest) = next run rest := by
  obtain ⟨c, cs, rfl⟩ := List.exists_cons_of_ne_nil hne
  rw [List.forall_mem_cons] at hrun
  have htake : rest.takeWhile p = [] := by
    cases rest with
    | nil => rfl
    | cons d ds =>
        rw [List.takeWhile_cons_of_neg]
        rw [hrest d rfl]
        exact Bool.false_ne_true
  have hdrop : rest.dropWhile p = rest := by
    have hsplit := List.takeWhile_append_dropWhile (p := p) (l := rest)
    rwa [htake, List.nil_append] at hsplit
  rw [List.cons_append, plus_bind_cons hrun.1, star_bind (fun matched => hnext _),
    List.takeWhile_append_of_pos hrun.2, List.dropWhile_append_of_pos hrun.2, htake, hdrop,
    List.append_nil]

/-- A run between texts of other characters. -/
theorem plus_bind_append_append {p : σ → Bool} {run stop : List σ}
    {next : List σ → Matcher σ τ} (hne : run ≠ []) (hrun : ∀ c ∈ run, p c = true)
    (hstopne : stop ≠ []) (hstop : ∀ c ∈ stop, p c = false) (rest : List σ)
    (hnext : ∀ matched, (next matched).FailsOn p) :
    (plus p >>= next) (run ++ (stop ++ rest)) = next run (stop ++ rest) := by
  apply plus_bind_append hne hrun _ hnext
  intro c hc
  obtain ⟨d, ds, rfl⟩ := List.exists_cons_of_ne_nil hstopne
  have hd : d = c := Option.some.inj hc
  rw [← hd]
  exact hstop d List.mem_cons_self

/-- The longest run is tried first. -/
theorem firstMatch_star_bind {p : σ → Bool} {next : List σ → Matcher σ τ} {text : List σ}
    {value : τ}
    (hnext : (next (text.takeWhile p)).firstMatch (text.dropWhile p) = some value) :
    (star p >>= next).firstMatch text = some value := by
  induction text generalizing next with
  | nil => simpa [firstMatch, bind_apply, star] using hnext
  | cons c cs ih =>
      by_cases hc : p c = true
      · rw [List.takeWhile_cons_of_pos hc, List.dropWhile_cons_of_pos hc] at hnext
        have hlongest := @ih (fun matched => next (c :: matched)) hnext
        rw [firstMatch, bind_apply] at hlongest
        rw [firstMatch, bind_apply, star, if_pos hc, List.flatMap_append, List.flatMap_map,
          List.head?_append, Option.map_or, hlongest, Option.some_or]
      · rw [List.takeWhile_cons_of_neg hc, List.dropWhile_cons_of_neg hc] at hnext
        rw [firstMatch, bind_apply, star, if_neg hc, List.flatMap_cons, List.flatMap_nil,
          List.append_nil]
        exact hnext

theorem firstMatch_plus_bind {p : σ → Bool} {next : List σ → Matcher σ τ} {c : σ}
    {cs : List σ} {value : τ} (hc : p c = true)
    (hnext : (next ((c :: cs).takeWhile p)).firstMatch ((c :: cs).dropWhile p) = some value) :
    (plus p >>= next).firstMatch (c :: cs) = some value := by
  rw [List.takeWhile_cons_of_pos hc, List.dropWhile_cons_of_pos hc] at hnext
  rw [firstMatch, plus_bind_cons hc]
  exact firstMatch_star_bind hnext

/-- The body is tried before going on without it. -/
theorem firstMatch_optional_bind {body : Matcher σ τ} {next : Option τ → Matcher σ υ}
    {text : List σ} {value : υ}
    (h : (body >>= fun found => next (some found)).firstMatch text = some value) :
    (optional body >>= next).firstMatch text = some value := by
  rw [firstMatch, bind_apply] at h
  rw [firstMatch, bind_apply, optional, List.flatMap_append, List.flatMap_map,
    List.head?_append, Option.map_or, h, Option.some_or]

theorem repeated_bind_append {p : σ → Bool} {run : List σ} {n : ℕ} (hn : run.length = n)
    (hrun : ∀ c ∈ run, p c = true) (rest : List σ) (next : List σ → Matcher σ τ) :
    (repeated p n >>= next) (run ++ rest) = next run rest := by
  subst hn
  induction run generalizing next with
  | nil => simp [bind_apply, repeated]
  | cons c cs ih =>
      rw [List.forall_mem_cons] at hrun
      have hcs := ih hrun.2 fun matched => next (c :: matched)
      rw [bind_apply] at hcs
      rw [List.cons_append, List.length_cons, repeated, bind_apply, bind_apply, one,
        if_pos hrun.1, List.flatMap_cons, List.flatMap_nil, List.append_nil, bind_apply,
        List.flatMap_assoc, ← hcs]
      congr 1
      funext found
      rw [pure_apply, List.flatMap_cons, List.flatMap_nil, List.append_nil]

end Matcher

end Upriv
