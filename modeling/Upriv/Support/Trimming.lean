import Mathlib.Data.List.DropRight
import Mathlib.Tactic.Common

/-!
# Trimming by a class

What is left of a list when the elements of a class are dropped at both ends, what
is dropped, and when two classes leave the same.
-/

namespace Upriv

section Trimming

variable {α : Type} {p q : α → Bool}

/-! ## Dropping at one end -/

/-- Trimming the end stops in the last part that has to stay. -/
theorem rdropWhile_append {back : List α} (hstop : ∃ c ∈ back, p c = false)
    (front : List α) : (front ++ back).rdropWhile p = front ++ back.rdropWhile p := by
  have hreverse : back.reverse.dropWhile p ≠ [] := by
    rw [ne_eq, List.dropWhile_eq_nil_iff]
    intro hall
    obtain ⟨c, hmem, hc⟩ := hstop
    rw [hall c (List.mem_reverse.mpr hmem)] at hc
    exact Bool.false_ne_true hc.symm
  rw [List.rdropWhile, List.rdropWhile, List.reverse_append, List.dropWhile_append,
    if_neg (by rwa [List.isEmpty_iff]), List.reverse_append, List.reverse_reverse]

theorem rdropWhile_cons_of_neg {c : α} (hc : p c = false) (cs : List α) :
    (c :: cs).rdropWhile p = c :: cs.rdropWhile p := by
  rw [List.rdropWhile, List.rdropWhile, List.reverse_cons, List.dropWhile_append]
  split
  · rename_i hempty
    rw [List.isEmpty_iff.mp hempty]
    simp [hc]
  · rw [List.reverse_append, List.reverse_singleton, List.singleton_append]

/-- A front without characters of the class stays whole. -/
theorem rdropWhile_append_of_neg {front : List α} (hfront : ∀ c ∈ front, p c = false)
    (back : List α) : (front ++ back).rdropWhile p = front ++ back.rdropWhile p := by
  induction front with
  | nil => rfl
  | cons c cs ih =>
      rw [List.forall_mem_cons] at hfront
      rw [List.cons_append, rdropWhile_cons_of_neg hfront.1, ih hfront.2, List.cons_append]

theorem rdropWhile_dropWhile (cs : List α) :
    (cs.rdropWhile p).dropWhile p = (cs.dropWhile p).rdropWhile p := by
  by_cases hall : ∀ c ∈ cs, p c = true
  · rw [List.rdropWhile_eq_nil_iff.mpr hall, List.dropWhile_eq_nil_iff.mpr hall]
    rfl
  · have hne : cs.dropWhile p ≠ [] := by
      rwa [ne_eq, List.dropWhile_eq_nil_iff]
    have hhead : p ((cs.dropWhile p).head hne) = false := List.head_dropWhile_not p hne
    have hstay : ((cs.dropWhile p).rdropWhile p).dropWhile p =
        (cs.dropWhile p).rdropWhile p := by
      rw [← List.cons_head_tail hne, rdropWhile_cons_of_neg hhead,
        List.dropWhile_cons_of_neg (by rw [hhead]; exact Bool.false_ne_true)]
    calc (cs.rdropWhile p).dropWhile p
        = ((cs.takeWhile p ++ cs.dropWhile p).rdropWhile p).dropWhile p := by
          rw [List.takeWhile_append_dropWhile]
      _ = (cs.takeWhile p ++ (cs.dropWhile p).rdropWhile p).dropWhile p := by
          rw [rdropWhile_append ⟨_, List.head_mem hne, hhead⟩]
      _ = ((cs.dropWhile p).rdropWhile p).dropWhile p :=
          List.dropWhile_append_of_pos fun _ => List.mem_takeWhile_imp
      _ = (cs.dropWhile p).rdropWhile p := hstay

theorem mem_dropWhile_of_neg {c : α} (hc : p c = false) {cs : List α} (hmem : c ∈ cs) :
    c ∈ cs.dropWhile p := by
  rw [← List.takeWhile_append_dropWhile (p := p) (l := cs), List.mem_append] at hmem
  rcases hmem with hmem | hmem
  · rw [List.mem_takeWhile_imp hmem] at hc
    exact Bool.noConfusion hc
  · exact hmem

theorem mem_rdropWhile_of_neg {c : α} (hc : p c = false) {cs : List α} (hmem : c ∈ cs) :
    c ∈ cs.rdropWhile p := by
  rw [List.rdropWhile, List.mem_reverse]
  exact mem_dropWhile_of_neg hc (List.mem_reverse.mpr hmem)

theorem rdropWhile_map {f : α → α} (h : ∀ c, p (f c) = p c) (cs : List α) :
    (cs.map f).rdropWhile p = (cs.rdropWhile p).map f := by
  have hcomp : p ∘ f = p := funext h
  rw [List.rdropWhile, List.rdropWhile, ← List.map_reverse, List.dropWhile_map, hcomp,
    List.map_reverse]

/-- Trailing elements of the class do not count. -/
theorem rdropWhile_append_of_pos {back : List α} (hback : ∀ c ∈ back, p c = true)
    (front : List α) : (front ++ back).rdropWhile p = front.rdropWhile p := by
  rw [List.rdropWhile, List.rdropWhile, List.reverse_append, List.dropWhile_append_of_pos]
  intro c hc
  exact hback c (List.mem_reverse.mp hc)

theorem mem_head_of_mem_head_rdropWhile {cs : List α} {c : α}
    (h : c ∈ (cs.rdropWhile p).head?) : c ∈ cs.head? := by
  obtain ⟨dropped, hdropped⟩ := List.rdropWhile_prefix p cs
  rw [← hdropped, List.head?_append, h]
  rfl

/-! ## Trimming both ends -/

def trimWith (p : α → Bool) (cs : List α) : List α := (cs.dropWhile p).rdropWhile p

/-- What trimming drops. -/
def trimmedOff (p : α → Bool) (cs : List α) : List α :=
  cs.takeWhile p ++ (cs.dropWhile p).rtakeWhile p

theorem trimWith_split (p : α → Bool) (cs : List α) :
    cs.takeWhile p ++ (trimWith p cs ++ (cs.dropWhile p).rtakeWhile p) = cs := by
  rw [trimWith, List.rdropWhile_append_rtakeWhile, List.takeWhile_append_dropWhile]

theorem mem_of_mem_trimmedOff {cs : List α} {c : α} (h : c ∈ trimmedOff p cs) : c ∈ cs := by
  rw [← trimWith_split p cs]
  rw [trimmedOff, List.mem_append] at h
  rcases h with h | h
  · exact List.mem_append_left _ h
  · exact List.mem_append_right _ (List.mem_append_right _ h)

theorem of_mem_trimmedOff {cs : List α} {c : α} (h : c ∈ trimmedOff p cs) : p c = true := by
  rw [trimmedOff, List.mem_append] at h
  rcases h with h | h
  · exact List.mem_takeWhile_imp h
  · exact List.mem_rtakeWhile_imp h

theorem head_trimWith (cs : List α) : ∀ c ∈ (trimWith p cs).head?, p c = false := by
  intro c hc
  rw [trimWith, ← rdropWhile_dropWhile] at hc
  have hhead := List.head?_dropWhile_not p (cs.rdropWhile p)
  rw [hc] at hhead
  exact hhead

theorem getLast_trimWith (cs : List α) : ∀ c ∈ (trimWith p cs).getLast?, p c = false := by
  intro c hc
  obtain ⟨hne, hlast⟩ := List.mem_getLast?_eq_getLast hc
  rw [hlast]
  exact Bool.eq_false_iff.mpr (List.rdropWhile_last_not p _ hne)

theorem trimWith_eq_nil_iff {cs : List α} : trimWith p cs = [] ↔ ∀ c ∈ cs, p c = true := by
  constructor
  · intro h c hc
    by_contra hne
    have hmem : c ∈ trimWith p cs :=
      mem_rdropWhile_of_neg (Bool.eq_false_iff.mpr hne)
        (mem_dropWhile_of_neg (Bool.eq_false_iff.mpr hne) hc)
    rw [h] at hmem
    exact absurd hmem List.not_mem_nil
  · intro h
    rw [trimWith, List.dropWhile_eq_nil_iff.mpr h, List.rdropWhile_nil]

section Split

variable {front body back : List α} (hfront : ∀ c ∈ front, p c = true)
  (hback : ∀ c ∈ back, p c = true) (hhead : ∀ c ∈ body.head?, p c = false)
  (hlast : ∀ c ∈ body.getLast?, p c = false)

include hfront hback hhead hlast

theorem trimWith_of_split : trimWith p (front ++ (body ++ back)) = body := by
  cases body with
  | nil =>
      rw [trimWith_eq_nil_iff, List.nil_append, List.forall_mem_append]
      exact ⟨hfront, hback⟩
  | cons c cs =>
      have hc : ¬ p c = true := Bool.eq_false_iff.mp (hhead c rfl)
      rw [trimWith, List.dropWhile_append_of_pos hfront, List.cons_append,
        List.dropWhile_cons_of_neg hc, ← List.cons_append, rdropWhile_append_of_pos hback,
        List.rdropWhile_eq_self_iff]
      intro hne
      exact Bool.eq_false_iff.mp (hlast _ (List.getLast?_eq_some_getLast hne))

theorem trimmedOff_of_split (hbody : body ≠ []) :
    trimmedOff p (front ++ (body ++ back)) = front ++ back := by
  have htake : (front ++ (body ++ back)).takeWhile p = front := by
    obtain ⟨c, cs, rfl⟩ := List.exists_cons_of_ne_nil hbody
    rw [List.takeWhile_append_of_pos hfront, List.cons_append,
      List.takeWhile_cons_of_neg (Bool.eq_false_iff.mp (hhead c rfl)), List.append_nil]
  have hsplit := trimWith_split p (front ++ (body ++ back))
  rw [htake, trimWith_of_split hfront hback hhead hlast] at hsplit
  rw [trimmedOff, htake, List.append_cancel_left (List.append_cancel_left hsplit)]

end Split

/-! ## Trimming by a larger class -/

/-- A larger class drops no more than `p` when it leaves both ends of what `p` leaves. -/
theorem mem_trimmedOff_of_ends {cs : List α} (hsub : ∀ c, p c = true → q c = true)
    (hne : trimWith p cs ≠ []) (hhead : ∀ c ∈ (trimWith p cs).head?, q c = false)
    (hlast : ∀ c ∈ (trimWith p cs).getLast?, q c = false) :
    ∀ c ∈ trimmedOff q cs, p c = true := by
  have hfront : ∀ c ∈ cs.takeWhile p, p c = true := fun _ => List.mem_takeWhile_imp
  have hback : ∀ c ∈ (cs.dropWhile p).rtakeWhile p, p c = true :=
    fun _ => List.mem_rtakeWhile_imp
  have hoff := trimmedOff_of_split (fun c hc => hsub c (hfront c hc))
    (fun c hc => hsub c (hback c hc)) hhead hlast hne
  rw [trimWith_split] at hoff
  rw [hoff, List.forall_mem_append]
  exact ⟨hfront, hback⟩

theorem trimWith_eq_of_trimmedOff {cs : List α} (hsub : ∀ c, p c = true → q c = true)
    (h : ∀ c ∈ trimmedOff q cs, p c = true) : trimWith p cs = trimWith q cs := by
  rw [trimmedOff, List.forall_mem_append] at h
  have hends : ∀ c, q c = false → p c = false := by
    intro c hq
    rw [Bool.eq_false_iff]
    intro hp
    rw [hsub c hp] at hq
    exact Bool.noConfusion hq
  have hsplit := trimWith_of_split h.1 h.2 (fun c hc => hends c (head_trimWith cs c hc))
    (fun c hc => hends c (getLast_trimWith cs c hc))
  rwa [trimWith_split] at hsplit

/-- Two classes trim a list alike when what either drops is in both. -/
theorem trimWith_eq_trimWith_iff {cs : List α} :
    trimWith p cs = trimWith q cs ↔
      ∀ c ∈ trimmedOff (fun c => p c || q c) cs, p c = true ∧ q c = true := by
  have hleft : ∀ c, p c = true → (p c || q c) = true := fun c hc => by rw [hc, Bool.true_or]
  have hright : ∀ c, q c = true → (p c || q c) = true := fun c hc => by rw [hc, Bool.or_true]
  constructor
  · intro h c hc
    by_cases hnil : trimWith p cs = []
    · have hmem := mem_of_mem_trimmedOff hc
      exact ⟨trimWith_eq_nil_iff.mp hnil c hmem, trimWith_eq_nil_iff.mp (h ▸ hnil) c hmem⟩
    · have hhead : ∀ c ∈ (trimWith p cs).head?, (p c || q c) = false := by
        intro c hc
        rw [head_trimWith cs c hc, Bool.false_or]
        rw [h] at hc
        exact head_trimWith cs c hc
      have hlast : ∀ c ∈ (trimWith p cs).getLast?, (p c || q c) = false := by
        intro c hc
        rw [getLast_trimWith cs c hc, Bool.false_or]
        rw [h] at hc
        exact getLast_trimWith cs c hc
      constructor
      · exact mem_trimmedOff_of_ends hleft hnil hhead hlast c hc
      · rw [h] at hnil hhead hlast
        exact mem_trimmedOff_of_ends hright hnil hhead hlast c hc
  · intro h
    calc trimWith p cs
        = trimWith (fun c => p c || q c) cs :=
          trimWith_eq_of_trimmedOff hleft fun c hc => (h c hc).1
      _ = trimWith q cs := (trimWith_eq_of_trimmedOff hright fun c hc => (h c hc).2).symm

end Trimming

end Upriv
