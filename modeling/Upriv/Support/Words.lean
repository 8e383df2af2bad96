import Mathlib.Data.List.DropRight
import Mathlib.Tactic.Common
import Upriv.Support.Trimming

/-!
# Words

The words of a list are its longest parts whose elements are all of one class.  Replacing
what lies between by a separator, and dropping separators at both ends, leaves the
words joined by single separators.
-/

namespace Upriv

section Words

variable {α : Type} {p : α → Bool} {sep : α}

/-- The longest parts with elements of the class only. -/
def words (p : α → Bool) (cs : List α) : List (List α) :=
  (cs.splitOnP fun c => !p c).filter (· ≠ [])

/-- Every run of elements outside of the class becomes one separator, at its end. -/
def replaceRuns (p : α → Bool) (sep : α) : List α → List α
  | [] => []
  | c :: cs =>
    if p c then c :: replaceRuns p sep cs
    else if cs.head?.all p then sep :: replaceRuns p sep cs
    else replaceRuns p sep cs

/-! ## The words of a list -/

theorem splitOnP_cons_of_pos {c : α} (hc : p c = true) (cs : List α) :
    ∃ h t, (cs.splitOnP fun c => !p c) = h :: t ∧
      ((c :: cs).splitOnP fun c => !p c) = (c :: h) :: t := by
  obtain ⟨h, t, hsplit⟩ := List.exists_cons_of_ne_nil (List.splitOnP_ne_nil (fun c => !p c) cs)
  refine ⟨h, t, hsplit, ?_⟩
  rw [List.splitOnP_cons_eq_if_modifyHead, hc, hsplit]
  rfl

theorem splitOnP_cons_of_neg {c : α} (hc : p c = false) (cs : List α) :
    ((c :: cs).splitOnP fun c => !p c) = [] :: cs.splitOnP fun c => !p c := by
  rw [List.splitOnP_cons_eq_if_modifyHead, hc]
  rfl

theorem words_cons_of_neg {c : α} (hc : p c = false) (cs : List α) :
    words p (c :: cs) = words p cs := by
  rw [words, splitOnP_cons_of_neg hc, List.filter_cons_of_neg (by simp), words]

theorem ne_nil_of_mem_words {cs w : List α} (h : w ∈ words p cs) : w ≠ [] := by
  simpa using (List.mem_filter.mp h).2

theorem of_mem_words {cs w : List α} (h : w ∈ words p cs) {c : α} (hc : c ∈ w) :
    p c = true := by
  have hmem := (List.mem_filter.mp h).1
  clear h
  induction cs generalizing w with
  | nil =>
      rw [List.splitOnP_nil, List.mem_singleton] at hmem
      subst hmem
      cases hc
  | cons a cs ih =>
      cases ha : p a with
      | false =>
          rw [splitOnP_cons_of_neg ha, List.mem_cons] at hmem
          rcases hmem with rfl | hmem
          · cases hc
          · exact ih hc hmem
      | true =>
          obtain ⟨h, t, hsplit, hcons⟩ := splitOnP_cons_of_pos ha cs
          rw [hcons, List.mem_cons] at hmem
          rcases hmem with rfl | hmem
          · rcases List.mem_cons.mp hc with rfl | hc
            · exact ha
            · exact ih hc (by rw [hsplit]; exact List.mem_cons_self ..)
          · exact ih hc (by rw [hsplit]; exact List.mem_cons_of_mem _ hmem)

/-! ## Joining -/

theorem intercalate_cons (sep : α) (w : List α) (ws : List (List α)) :
    [sep].intercalate (w :: ws) = w ++ ws.flatMap (sep :: ·) := by
  induction ws generalizing w with
  | nil => simp
  | cons w' ws ih =>
      rw [List.intercalate_cons_cons, ih, List.flatMap_cons]
      simp

theorem intercalate_append {front rest : List (List α)} (hfront : front ≠ []) (hrest : rest ≠ [])
    (sep : α) :
    [sep].intercalate (front ++ rest) =
      [sep].intercalate front ++ sep :: [sep].intercalate rest := by
  obtain ⟨w, front, rfl⟩ := List.exists_cons_of_ne_nil hfront
  obtain ⟨w', rest, rfl⟩ := List.exists_cons_of_ne_nil hrest
  rw [List.cons_append, intercalate_cons, intercalate_cons, intercalate_cons,
    List.flatMap_append, List.flatMap_cons]
  simp

theorem mem_intercalate {c : α} {ws : List (List α)} (h : c ∈ [sep].intercalate ws) :
    c = sep ∨ ∃ w ∈ ws, c ∈ w := by
  cases ws with
  | nil => cases h
  | cons w ws =>
      rw [intercalate_cons, List.mem_append, List.mem_flatMap] at h
      rcases h with h | ⟨w', hw', h⟩
      · exact .inr ⟨w, List.mem_cons_self .., h⟩
      · rcases List.mem_cons.mp h with rfl | h
        · exact .inl rfl
        · exact .inr ⟨w', List.mem_cons_of_mem _ hw', h⟩

/-- A separator stands exactly between two words. -/
theorem getElem?_intercalate_eq_sep_iff {ws : List (List α)} (hwords : ∀ w ∈ ws, sep ∉ w)
    (n : ℕ) :
    ([sep].intercalate ws)[n]? = some sep ↔
      ∃ front rest, ws = front ++ rest ∧ front ≠ [] ∧ rest ≠ [] ∧
        ([sep].intercalate front).length = n := by
  constructor
  · induction ws generalizing n with
    | nil =>
        intro h
        cases h
    | cons w ws ih =>
        rw [List.forall_mem_cons] at hwords
        intro h
        by_cases hws : ws = []
        · subst hws
          rw [List.intercalate_singleton] at h
          exact absurd (List.mem_of_getElem? h) hwords.1
        · have happend := @intercalate_append _ [w] ws (List.cons_ne_nil _ _) hws sep
          rw [List.intercalate_singleton, List.singleton_append] at happend
          rw [happend] at h
          rcases Nat.lt_trichotomy n w.length with hlt | rfl | hgt
          · rw [List.getElem?_append_left hlt] at h
            exact absurd (List.mem_of_getElem? h) hwords.1
          · exact ⟨[w], ws, rfl, List.cons_ne_nil _ _, hws, by rw [List.intercalate_singleton]⟩
          · rw [List.getElem?_append_right hgt.le,
              show n - w.length = n - w.length - 1 + 1 by omega, List.getElem?_cons_succ] at h
            obtain ⟨front, rest, rfl, hfront, hrest, hlength⟩ := ih hwords.2 _ h
            refine ⟨w :: front, rest, rfl, List.cons_ne_nil _ _, hrest, ?_⟩
            have hcons := @intercalate_append _ [w] front (List.cons_ne_nil _ _) hfront sep
            rw [List.intercalate_singleton, List.singleton_append] at hcons
            rw [hcons, List.length_append, List.length_cons, hlength]
            omega
  · rintro ⟨front, rest, rfl, hfront, hrest, rfl⟩
    rw [intercalate_append hfront hrest, List.getElem?_append_right (le_refl _), Nat.sub_self]
    rfl

/-! ## Replacing and trimming -/

variable [DecidableEq α]

/-- Without separators at both ends. -/
def trimSep (sep : α) (cs : List α) : List α :=
  (cs.dropWhile (· == sep)).rdropWhile (· == sep)

theorem ne_sep_of_pos (hsep : p sep = false) {c : α} (hc : p c = true) : (c == sep) = false := by
  rw [beq_eq_false_iff_ne]
  rintro rfl
  rw [hc] at hsep
  cases hsep

/-- What a word, and all that follows it, becomes. -/
theorem rdropWhile_replaceRuns (hsep : p sep = false) (cs : List α) {h : List α}
    {t : List (List α)} (hsplit : (cs.splitOnP fun c => !p c) = h :: t) :
    (replaceRuns p sep cs).rdropWhile (· == sep) =
      h ++ (t.filter (· ≠ [])).flatMap (sep :: ·) := by
  induction cs generalizing h t with
  | nil =>
      cases hsplit
      rfl
  | cons c cs ih =>
      cases hc : p c with
      | true =>
          obtain ⟨h', t', hrest, hcons⟩ := splitOnP_cons_of_pos hc cs
          rw [hcons] at hsplit
          cases hsplit
          have hne := ne_sep_of_pos hsep hc
          rw [replaceRuns, if_pos hc, rdropWhile_cons_of_neg (p := (· == sep)) hne, ih hrest]
          rfl
      | false =>
          rw [splitOnP_cons_of_neg hc] at hsplit
          cases hsplit
          rw [replaceRuns, if_neg (by rw [hc]; exact Bool.false_ne_true), List.nil_append]
          cases cs with
          | nil => simp [replaceRuns]
          | cons c' cs =>
              cases hc' : p c' with
              | true =>
                  obtain ⟨h', t', -, hcons⟩ := splitOnP_cons_of_pos hc' cs
                  have hstop : ∃ a ∈ replaceRuns p sep (c' :: cs), (a == sep) = false := by
                    rw [replaceRuns, if_pos hc']
                    exact ⟨c', List.mem_cons_self .., ne_sep_of_pos hsep hc'⟩
                  rw [if_pos (by simpa using hc'), ← List.singleton_append,
                    rdropWhile_append hstop, ih hcons, hcons, List.filter_cons_of_pos (by simp),
                    List.flatMap_cons]
                  rfl
              | false =>
                  have hcons := splitOnP_cons_of_neg hc' cs
                  rw [if_neg (by simpa using hc'), ih hcons, hcons,
                    List.filter_cons_of_neg (by simp), List.nil_append]

/-- The words joined by single separators. -/
theorem trimSep_replaceRuns (hsep : p sep = false) (cs : List α) :
    trimSep sep (replaceRuns p sep cs) = [sep].intercalate (words p cs) := by
  induction cs with
  | nil => rfl
  | cons c cs ih =>
      cases hc : p c with
      | true =>
          obtain ⟨h, t, hrest, hcons⟩ := splitOnP_cons_of_pos hc cs
          have hne := ne_sep_of_pos hsep hc
          rw [trimSep, replaceRuns, if_pos hc,
            List.dropWhile_cons_of_neg (by rw [hne]; exact Bool.false_ne_true),
            rdropWhile_cons_of_neg (p := (· == sep)) hne, rdropWhile_replaceRuns hsep cs hrest,
            words, hcons, List.filter_cons_of_pos (by simp), intercalate_cons]
          rfl
      | false =>
          rw [words_cons_of_neg hc, ← ih, trimSep, trimSep, replaceRuns,
            if_neg (by rw [hc]; exact Bool.false_ne_true)]
          split
          · rw [List.dropWhile_cons_of_pos (p := (· == sep)) (beq_self_eq_true sep)]
          · rfl

end Words

end Upriv
