import Mathlib.Tactic.Common

/-!
# Texts as lines

`str::lines`, and the text that a list of lines is written as.
-/

namespace Upriv

def stripCarriageReturn (line : List Char) : List Char :=
  if line.getLast? = some '\r' then line.dropLast else line

/-- `str::lines`: every line feed ends a line, and what follows the last one is a
line of its own unless it is empty. -/
def lines (text : List Char) : List (List Char) :=
  (text.splitOn '\n').dropLast.map stripCarriageReturn ++
    (text.splitOn '\n').getLast?.toList.filter (· ≠ [])

/-- Every line followed by a line feed. -/
def unlines (ls : List (List Char)) : List Char := ls.flatMap fun line => line ++ ['\n']

/-- One line for `lines`. -/
def IsLine (line : List Char) : Prop := '\n' ∉ line ∧ line.getLast? ≠ some '\r'

instance (line : List Char) : Decidable (IsLine line) :=
  inferInstanceAs (Decidable (_ ∧ _))

theorem stripCarriageReturn_of_isLine {line : List Char} (h : IsLine line) :
    stripCarriageReturn line = line := if_neg h.2

theorem splitOn_unlines {ls : List (List Char)} (h : ∀ line ∈ ls, '\n' ∉ line) :
    (unlines ls).splitOn '\n' = ls ++ [[]] := by
  induction ls with
  | nil => rfl
  | cons line ls ih =>
      rw [List.forall_mem_cons] at h
      rw [unlines, List.flatMap_cons, List.append_assoc, List.singleton_append, ← unlines,
        List.splitOn_append_cons_self_of_not_mem h.1, ih h.2, List.cons_append]

theorem lines_unlines {ls : List (List Char)} (h : ∀ line ∈ ls, IsLine line) :
    lines (unlines ls) = ls := by
  have hmap : ls.map stripCarriageReturn = ls.map id :=
    List.map_congr_left fun line hline => stripCarriageReturn_of_isLine (h line hline)
  rw [lines, splitOn_unlines fun line hline => (h line hline).1, List.dropLast_concat,
    List.getLast?_concat, hmap, List.map_id]
  simp

end Upriv
