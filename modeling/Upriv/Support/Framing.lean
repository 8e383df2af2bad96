import Mathlib.Tactic.Common

/-!
# Framing by a separator

A stream as the pieces that a separator ends and what follows the last one, and how
the pieces of a stream come from the pieces of its parts.
-/

namespace Upriv

section Framing

variable {α : Type} [DecidableEq α] {sep : α}

/-- The pieces that the separator ends, without it, and what follows the last one. -/
def frames (sep : α) : List α → List (List α) × List α
  | [] => ([], [])
  | x :: xs =>
    if x = sep then ([] :: (frames sep xs).1, (frames sep xs).2)
    else
      match (frames sep xs).1 with
      | [] => ([], x :: (frames sep xs).2)
      | piece :: pieces => ((x :: piece) :: pieces, (frames sep xs).2)

/-- The pieces that the separator ends. -/
def complete (sep : α) (stream : List α) : List (List α) := (frames sep stream).1

/-- What follows the last separator. -/
def unfinished (sep : α) (stream : List α) : List α := (frames sep stream).2

@[simp] theorem complete_nil : complete sep [] = [] := rfl

@[simp] theorem unfinished_nil : unfinished sep [] = [] := rfl

theorem frames_of_not_mem {stream : List α} (h : sep ∉ stream) :
    frames sep stream = ([], stream) := by
  induction stream with
  | nil => rfl
  | cons x xs ih =>
    rw [List.mem_cons, not_or] at h
    rw [frames, if_neg (Ne.symm h.1), ih h.2]

theorem frames_append_sep {piece : List α} (h : sep ∉ piece) (rest : List α) :
    frames sep (piece ++ sep :: rest) = (piece :: complete sep rest, unfinished sep rest) := by
  induction piece with
  | nil =>
    rw [List.nil_append, frames, if_pos rfl]
    rfl
  | cons x xs ih =>
    rw [List.mem_cons, not_or] at h
    rw [List.cons_append, frames, if_neg (Ne.symm h.1), ih h.2]

theorem complete_of_not_mem {stream : List α} (h : sep ∉ stream) :
    complete sep stream = [] := by
  rw [complete, frames_of_not_mem h]

theorem unfinished_of_not_mem {stream : List α} (h : sep ∉ stream) :
    unfinished sep stream = stream := by
  rw [unfinished, frames_of_not_mem h]

theorem complete_append_sep {piece : List α} (h : sep ∉ piece) (rest : List α) :
    complete sep (piece ++ sep :: rest) = piece :: complete sep rest := by
  rw [complete, frames_append_sep h]

theorem unfinished_append_sep {piece : List α} (h : sep ∉ piece) (rest : List α) :
    unfinished sep (piece ++ sep :: rest) = unfinished sep rest := by
  rw [unfinished, frames_append_sep h]

omit [DecidableEq α] in
/-- A stream is its unfinished end, or starts with a piece. -/
@[elab_as_elim]
theorem framing_induction (sep : α) {P : List α → Prop} (last : ∀ stream, sep ∉ stream → P stream)
    (piece : ∀ front rest, sep ∉ front → P rest → P (front ++ sep :: rest))
    (stream : List α) : P stream := by
  by_cases h : sep ∈ stream
  · obtain ⟨front, rest, hstream, hfront⟩ := List.eq_append_cons_of_mem h
    have hrest := framing_induction sep last piece rest
    rw [hstream]
    exact piece front rest hfront hrest
  · exact last stream h
termination_by stream.length
decreasing_by
  rw [hstream, List.length_append, List.length_cons]
  omega

theorem sep_not_mem_unfinished (sep : α) (stream : List α) : sep ∉ unfinished sep stream := by
  induction stream using framing_induction sep with
  | last stream h => rwa [unfinished_of_not_mem h]
  | piece front rest hfront ih => rwa [unfinished_append_sep hfront]

/-- The pieces of the front come first, and its unfinished piece goes on. -/
theorem frames_append (front back : List α) :
    frames sep (front ++ back) =
      (complete sep front ++ complete sep (unfinished sep front ++ back),
        unfinished sep (unfinished sep front ++ back)) := by
  induction front using framing_induction sep with
  | last stream h =>
    rw [complete_of_not_mem h, unfinished_of_not_mem h]
    rfl
  | piece front rest hfront ih =>
    rw [List.append_assoc, List.cons_append, frames_append_sep hfront,
      complete_append_sep hfront, unfinished_append_sep hfront, complete, unfinished, ih]
    rfl

theorem complete_append (front back : List α) :
    complete sep (front ++ back) =
      complete sep front ++ complete sep (unfinished sep front ++ back) := by
  rw [complete, frames_append]

theorem unfinished_append (front back : List α) :
    unfinished sep (front ++ back) = unfinished sep (unfinished sep front ++ back) := by
  rw [unfinished, frames_append]

theorem length_complete (stream : List α) :
    (complete sep stream).length = stream.count sep := by
  induction stream using framing_induction sep with
  | last stream h =>
    rw [complete_of_not_mem h, List.count_eq_zero_of_not_mem h, List.length_nil]
  | piece front rest hfront ih =>
    rw [complete_append_sep hfront, List.length_cons, ih, List.count_append,
      List.count_eq_zero_of_not_mem hfront, List.count_cons_self, Nat.zero_add]

end Framing

end Upriv
