import Mathlib.Tactic.Common

/-!
# Texts of segments

A path is a list of segments, each written after a separator; no segments are written as
a single separator.  Splitting such a text gives the segments back, and one text starts
with another and a separator exactly when it has more segments.
-/

namespace Upriv

section Segments

variable {α : Type} [DecidableEq α] {sep : α}

/-- A part that is not empty and has no separator. -/
structure IsSegment (sep : α) (s : List α) : Prop where
  ne_nil : s ≠ []
  not_mem : sep ∉ s

instance (s : List α) : Decidable (IsSegment sep s) :=
  decidable_of_iff (s ≠ [] ∧ sep ∉ s) ⟨fun h => ⟨h.1, h.2⟩, fun h => ⟨h.ne_nil, h.not_mem⟩⟩

/-- The parts of a text that are not empty. -/
def pathSegments (sep : α) (text : List α) : List (List α) :=
  (text.splitOn sep).filter (· ≠ [])

/-- Each segment after a separator. -/
def segmentsText (sep : α) (segs : List (List α)) : List α := segs.flatMap (sep :: ·)

def pathText (sep : α) (segs : List (List α)) : List α :=
  if segs = [] then [sep] else segmentsText sep segs

omit [DecidableEq α] in
theorem pathText_of_ne_nil {segs : List (List α)} (h : segs ≠ []) :
    pathText sep segs = segmentsText sep segs := if_neg h

omit [DecidableEq α] in
theorem segmentsText_cons (s : List α) (segs : List (List α)) :
    segmentsText sep (s :: segs) = sep :: (s ++ segmentsText sep segs) := rfl

omit [DecidableEq α] in
theorem segmentsText_append (segs more : List (List α)) :
    segmentsText sep (segs ++ more) = segmentsText sep segs ++ segmentsText sep more :=
  List.flatMap_append

omit [DecidableEq α] in
theorem pathText_head? (segs : List (List α)) : (pathText sep segs).head? = some sep := by
  cases segs <;> rfl

omit [DecidableEq α] in
theorem pathText_append {segs : List (List α)} (h : segs ≠ []) (more : List (List α)) :
    pathText sep (segs ++ more) = pathText sep segs ++ segmentsText sep more := by
  rw [pathText_of_ne_nil h, pathText_of_ne_nil (List.append_ne_nil_of_left_ne_nil h more),
    segmentsText_append]

/-! ## Reading the segments back -/

theorem pathSegments_append_sep (front rest : List α) :
    pathSegments sep (front ++ sep :: rest) = pathSegments sep front ++ pathSegments sep rest := by
  rw [pathSegments, List.splitOn_append_cons_self, List.filter_append]
  rfl

theorem pathSegments_segment {s : List α} (h : IsSegment sep s) : pathSegments sep s = [s] := by
  rw [pathSegments, List.splitOn_eq_singleton h.not_mem, List.filter_eq_self]
  intro part hpart
  rw [List.mem_singleton.mp hpart]
  exact decide_eq_true h.ne_nil

theorem pathSegments_segmentsText {segs : List (List α)} (h : ∀ s ∈ segs, IsSegment sep s) :
    pathSegments sep (segmentsText sep segs) = segs := by
  induction segs with
  | nil => rfl
  | cons s segs ih =>
    rw [List.forall_mem_cons] at h
    have hstart : pathSegments sep (segmentsText sep (s :: segs)) =
        pathSegments sep (s ++ segmentsText sep segs) := pathSegments_append_sep [] _
    cases segs with
    | nil =>
      rw [hstart, segmentsText, List.flatMap_nil, List.append_nil, pathSegments_segment h.1]
    | cons next segs =>
      have hrest : pathSegments sep (segmentsText sep (next :: segs)) =
          pathSegments sep (next ++ segmentsText sep segs) := pathSegments_append_sep [] _
      rw [hstart, segmentsText_cons, pathSegments_append_sep, ← hrest, ih h.2,
        pathSegments_segment h.1, List.singleton_append]

theorem pathSegments_pathText {segs : List (List α)} (h : ∀ s ∈ segs, IsSegment sep s) :
    pathSegments sep (pathText sep segs) = segs := by
  by_cases hsegs : segs = []
  · subst hsegs
    have hroot : pathSegments sep ([] ++ sep :: []) = [] := by
      rw [pathSegments_append_sep]
      rfl
    exact hroot
  · rw [pathText_of_ne_nil hsegs, pathSegments_segmentsText h]

theorem pathText_inj {segs segs' : List (List α)} (h : ∀ s ∈ segs, IsSegment sep s)
    (h' : ∀ s ∈ segs', IsSegment sep s) :
    pathText sep segs = pathText sep segs' ↔ segs = segs' := by
  constructor
  · intro heq
    rw [← pathSegments_pathText h, heq, pathSegments_pathText h']
  · rintro rfl
    rfl

/-! ## Texts that start with others -/

/-- One more separator after a path: what follows has at least one more segment. -/
theorem pathText_sep_prefix_iff {segs segs' : List (List α)} (hne : segs ≠ [])
    (h : ∀ s ∈ segs, IsSegment sep s) (h' : ∀ s ∈ segs', IsSegment sep s) :
    pathText sep segs ++ [sep] <+: pathText sep segs' ↔ segs <+: segs' ∧ segs ≠ segs' := by
  constructor
  · rintro ⟨rest, hrest⟩
    rw [List.append_assoc, List.singleton_append] at hrest
    have hparts : segs' = segs ++ pathSegments sep rest := by
      rw [← pathSegments_pathText h', ← hrest, pathSegments_append_sep, pathSegments_pathText h]
    refine ⟨⟨_, hparts.symm⟩, ?_⟩
    rintro rfl
    have hlength := congrArg List.length hrest
    rw [List.length_append, List.length_cons] at hlength
    omega
  · rintro ⟨⟨more, rfl⟩, hmore⟩
    cases more with
    | nil => exact absurd (List.append_nil segs).symm hmore
    | cons s more =>
      refine ⟨s ++ segmentsText sep more, ?_⟩
      rw [pathText_append hne, segmentsText_cons, List.append_assoc, List.singleton_append]

end Segments

end Upriv
