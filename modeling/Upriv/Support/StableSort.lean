import Mathlib.Algebra.Order.Group.Defs
import Mathlib.Algebra.Order.Group.Unbundled.Basic
import Mathlib.Data.List.Pairwise
import Mathlib.Data.List.Sort
import Mathlib.Order.Basic

/-!
# Stable sorting and the order of the input

A stable sort by a total preorder keeps elements that tie in the order they
come in.  So its result depends on the order of the input exactly when two
elements tie.
-/

namespace Upriv

variable {α β : Type} {le : α → α → Bool}

/-- Either of the two may come first. -/
def Tied (le : α → α → Bool) (a b : α) : Prop := le a b = true ∧ le b a = true

instance : Std.Symm fun a b => ¬ Tied le a b where
  symm _ _ h ht := h ht.symm

/-- Without repetitions, two elements stand in one order only. -/
theorem eq_of_pair_sublist {a b : α} {l : List α} (hnodup : l.Nodup)
    (hab : [a, b].Sublist l) (hba : [b, a].Sublist l) : a = b := by
  induction l with
  | nil => cases hab
  | cons c l ih =>
      obtain ⟨hnew, hnodup⟩ := List.nodup_cons.mp hnodup
      cases hab with
      | cons _ hab =>
          cases hba with
          | cons _ hba => exact ih hnodup hab hba
          | cons_cons _ _ => exact absurd (hab.mem (by simp)) hnew
      | cons_cons _ _ =>
          cases hba with
          | cons _ hba => exact absurd (hba.mem (by simp)) hnew
          | cons_cons _ _ => rfl

/-- Two places of a list brought to the front. -/
theorem exists_perm_cons_cons {a b : β} {xs : List β} (ha : a ∈ xs) (hb : b ∈ xs)
    (hne : a ≠ b) : ∃ rest, xs.Perm (a :: b :: rest) := by
  obtain ⟨s, t, rfl⟩ := List.append_of_mem ha
  have hb : b ∈ s ++ t := by
    rcases List.mem_append.mp hb with hb | hb
    · exact List.mem_append_left t hb
    · exact List.mem_append_right s (List.mem_of_ne_of_mem hne.symm hb)
  obtain ⟨u, v, huv⟩ := List.append_of_mem hb
  refine ⟨u ++ v, ?_⟩
  calc (s ++ a :: t).Perm (a :: (s ++ t)) := List.perm_middle
    _ = a :: (u ++ b :: v) := by rw [huv]
    List.Perm _ (a :: b :: (u ++ v)) := List.perm_middle.cons a

section
variable (htrans : ∀ a b c, le a b = true → le b c = true → le a c = true)
  (htotal : ∀ a b, (le a b || le b a) = true)
include htrans htotal

/-- When no two elements tie, every order of the input gives the same result. -/
theorem mergeSort_eq_of_perm {xs ys : List α} (hperm : xs.Perm ys)
    (hties : xs.Pairwise fun a b => ¬ Tied le a b) : xs.mergeSort le = ys.mergeSort le := by
  refine @List.Perm.eq_of_pairwise _ (fun a b => le a b = true) _ _ ?_
    (List.pairwise_mergeSort htrans htotal xs) (List.pairwise_mergeSort htrans htotal ys) ?_
  · intro a b ha hb hab hba
    have ha := List.mem_mergeSort.mp ha
    have hb := hperm.mem_iff.mpr (List.mem_mergeSort.mp hb)
    by_contra hne
    exact hties.forall ha hb hne ⟨hab, hba⟩
  · calc (xs.mergeSort le).Perm xs := List.mergeSort_perm xs le
      List.Perm _ ys := hperm
      List.Perm _ (ys.mergeSort le) := (List.mergeSort_perm ys le).symm

/-- Two elements that tie come out in the order in which they come in. -/
theorem not_tied_of_mergeSort_eq {a b : α} {rest : List α} (hnodup : (a :: b :: rest).Nodup)
    (hsame : (a :: b :: rest).mergeSort le = (b :: a :: rest).mergeSort le) :
    ¬ Tied le a b := by
  rintro ⟨hab, hba⟩
  have hfirst : [a, b].Sublist ((a :: b :: rest).mergeSort le) :=
    List.pair_sublist_mergeSort htrans htotal hab (by simp)
  have hsecond : [b, a].Sublist ((a :: b :: rest).mergeSort le) := by
    rw [hsame]
    exact List.pair_sublist_mergeSort htrans htotal hba (by simp)
  have hsorted := (List.mergeSort_perm (a :: b :: rest) le).nodup_iff.mpr hnodup
  have heq := eq_of_pair_sublist hsorted hfirst hsecond
  simp [heq] at hnodup

/-- Rows that are computed from the input, one by one, and then sorted. -/
theorem mergeSort_filterMap_perm_iff {f : β → Option α} {xs : List β}
    (hnodup : (xs.filterMap f).Nodup) :
    (∀ ys zs : List β, ys.Perm xs → zs.Perm xs →
        (ys.filterMap f).mergeSort le = (zs.filterMap f).mergeSort le) ↔
      (xs.filterMap f).Pairwise fun a b => ¬ Tied le a b := by
  constructor
  · intro hall
    refine hnodup.pairwise_of_forall_ne fun a ha b hb hne => ?_
    obtain ⟨x, hx, hfx⟩ := List.mem_filterMap.mp ha
    obtain ⟨y, hy, hfy⟩ := List.mem_filterMap.mp hb
    have hxy : x ≠ y := by
      rintro rfl
      rw [hfx] at hfy
      exact hne (Option.some.inj hfy)
    obtain ⟨rest, hrest⟩ := exists_perm_cons_cons hx hy hxy
    have hsame := hall _ _ hrest.symm ((List.Perm.swap x y rest).trans hrest.symm)
    simp only [List.filterMap_cons, hfx, hfy] at hsame
    refine not_tied_of_mergeSort_eq htrans htotal ?_ hsame
    simpa [hfx, hfy] using (hrest.filterMap f).nodup_iff.mp hnodup
  · intro hties ys zs hys hzs
    have hperm : (ys.filterMap f).Perm (zs.filterMap f) := (hys.trans hzs.symm).filterMap f
    refine mergeSort_eq_of_perm htrans htotal hperm ?_
    exact (hys.filterMap f).symm.pairwise hties fun h ht => h ht.symm

end

/-! ## Distinct keys -/

section
variable {α K : Type} [LinearOrder K] {key : α → K} {r : α → α → Prop} [DecidableRel r]
  {a : α} {l m : List α}

theorem pairwise_orderedInsert_key (hl : l.Pairwise fun a b => key a < key b)
    (hr : ∀ b ∈ l, key a ≠ key b ∧ (r a b ↔ key a < key b)) :
    (l.orderedInsert r a).Pairwise fun a b => key a < key b := by
  induction l with
  | nil => exact List.pairwise_singleton _ _
  | cons b l ih =>
      obtain ⟨hb, hl⟩ := List.pairwise_cons.mp hl
      obtain ⟨⟨hne, hrb⟩, hrest⟩ := List.forall_mem_cons.mp hr
      rw [List.orderedInsert_cons]
      split
      · rename_i hab
        have hlt : key a < key b := hrb.mp hab
        refine List.pairwise_cons.mpr ⟨?_, List.pairwise_cons.mpr ⟨hb, hl⟩⟩
        intro c hc
        rcases List.mem_cons.mp hc with rfl | hc
        · exact hlt
        · exact hlt.trans (hb c hc)
      · rename_i hab
        have hlt : key b < key a := lt_of_le_of_ne (not_lt.mp (hrb.not.mp hab)) hne.symm
        refine List.pairwise_cons.mpr ⟨?_, ih hl hrest⟩
        intro c hc
        rcases (List.mem_orderedInsert r).mp hc with rfl | hc
        · exact hlt
        · exact hb c hc

/-- A comparator that goes by a key sorts by it, whatever it makes of ties, when there
are none. -/
theorem pairwise_insertionSort_key (hkeys : (l.map key).Nodup)
    (hr : ∀ a ∈ l, ∀ b ∈ l, key a ≠ key b → (r a b ↔ key a < key b)) :
    (l.insertionSort r).Pairwise fun a b => key a < key b := by
  induction l with
  | nil => exact .nil
  | cons a l ih =>
      obtain ⟨hnew, hkeys⟩ := List.nodup_cons.mp hkeys
      have hrest : ∀ b ∈ l, ∀ c ∈ l, key b ≠ key c → (r b c ↔ key b < key c) :=
        fun b hb c hc => hr b (List.mem_cons_of_mem _ hb) c (List.mem_cons_of_mem _ hc)
      rw [List.insertionSort_cons]
      refine pairwise_orderedInsert_key (ih hkeys hrest) fun b hb => ?_
      have hmem : b ∈ l := (List.mem_insertionSort r).mp hb
      have hne : key a ≠ key b := by
        intro hsame
        exact hnew (hsame ▸ List.mem_map_of_mem hmem)
      exact ⟨hne, hr a List.mem_cons_self b (List.mem_cons_of_mem _ hmem) hne⟩

/-- Two lists of the same entries, with their keys in the same order. -/
theorem eq_of_perm_of_map_eq {κ : Type} (key : α → κ) (hperm : l.Perm m)
    (hkeys : l.map key = m.map key) (hnodup : (l.map key).Nodup) : l = m := by
  refine List.ext_getElem (by simpa using congrArg List.length hkeys) fun i hi hi' => ?_
  have hsame : key l[i] = key m[i] := by
    have hget := congrArg (·[i]?) hkeys
    simpa [hi, hi'] using hget
  have hmem : m[i] ∈ l := hperm.mem_iff.mpr (List.getElem_mem hi')
  exact List.inj_on_of_nodup_map hnodup (List.getElem_mem hi) hmem hsame

end

/-! ## Pairs in a sorted list -/

theorem pair_sublist_or {a b : α} {l : List α} (ha : a ∈ l) (hb : b ∈ l) (hne : a ≠ b) :
    [a, b].Sublist l ∨ [b, a].Sublist l := by
  obtain ⟨s, t, rfl⟩ := List.append_of_mem ha
  rcases List.mem_append.mp hb with hb | hb
  · right
    exact (List.singleton_sublist.mpr hb).append (List.singleton_sublist.mpr List.mem_cons_self)
  · left
    have hb : b ∈ t := List.mem_of_ne_of_mem hne.symm hb
    have hpair : [a, b].Sublist (a :: t) := (List.singleton_sublist.mpr hb).cons_cons a
    exact hpair.trans (List.sublist_append_right s _)

theorem forall_not_pair_sublist_iff {l : List α} :
    (∀ a b, ¬ [a, b].Sublist l) ↔ l.length ≤ 1 := by
  constructor
  · intro hnone
    rcases l with _ | ⟨a, _ | ⟨b, l⟩⟩
    · exact Nat.zero_le 1
    · exact le_rfl
    · exact absurd (List.sublist_append_left [a, b] l) (hnone a b)
  · intro hlength a b hpair
    exact absurd (hpair.length_le.trans hlength) (by simp)

/-- The order of every two elements is the order of the list. -/
theorem eq_of_perm_of_pair_sublist {l m : List α} (hperm : l.Perm m) (hnodup : l.Nodup)
    (hpairs : ∀ a b, [a, b].Sublist l → [a, b].Sublist m) : l = m := by
  have hm : m.Nodup := hperm.nodup_iff.mp hnodup
  refine @List.Perm.eq_of_pairwise _ (fun a b => [a, b].Sublist m) _ _ ?_ ?_ ?_ hperm
  · intro a b _ _ hab hba
    exact eq_of_pair_sublist hm hab hba
  · exact List.pairwise_iff_forall_sublist.mpr fun {a b} hab => hpairs a b hab
  · exact List.pairwise_iff_forall_sublist.mpr id

section
variable (r : α → α → Prop) [DecidableRel r] [Std.Total r] [IsTrans α r] {r' : α → α → Prop}
  [DecidableRel r'] [Std.Total r'] [IsTrans α r'] {a b : α} {l m : List α}

/-- In a stable sort the order decides, and then the place in the input. -/
theorem pair_sublist_insertionSort_iff (hab : [a, b].Sublist l) :
    [a, b].Sublist (l.insertionSort r) ↔ r a b := by
  constructor
  · intro hsorted
    exact List.pairwise_iff_forall_sublist.mp (List.pairwise_insertionSort r l) hsorted
  · intro hr
    exact List.pair_sublist_insertionSort hr hab

theorem ne_of_pair_sublist (hnodup : l.Nodup) (hab : [a, b].Sublist l) : a ≠ b := by
  simpa using hab.nodup hnodup

theorem pair_sublist_swap_iff (hperm : m.Perm l) (hnodup : l.Nodup) (hab : [a, b].Sublist l) :
    [b, a].Sublist m ↔ ¬ [a, b].Sublist m := by
  have hne := ne_of_pair_sublist hnodup hab
  constructor
  · intro hba hab'
    exact hne (eq_of_pair_sublist (hperm.nodup_iff.mpr hnodup) hab' hba)
  · intro hnot
    have hmem : ∀ c ∈ [a, b], c ∈ m := fun c hc => hperm.mem_iff.mpr (hab.mem hc)
    exact (pair_sublist_or (hmem a (by simp)) (hmem b (by simp)) hne).resolve_left hnot

/-- A list is the sorted one when it has every two elements in order. -/
theorem eq_insertionSort_iff (hperm : m.Perm l) (hnodup : l.Nodup) :
    m = l.insertionSort r ↔ ∀ a b, [a, b].Sublist l → ([a, b].Sublist m ↔ r a b) := by
  constructor
  · rintro rfl a b hab
    exact pair_sublist_insertionSort_iff r hab
  · intro hall
    have hsorted := List.perm_insertionSort r l
    have hm : m.Nodup := hperm.nodup_iff.mpr hnodup
    refine eq_of_perm_of_pair_sublist (hperm.trans hsorted.symm) hm fun a b hab => ?_
    have hmem : ∀ c ∈ [a, b], c ∈ l := fun c hc => hperm.mem_iff.mp (hab.mem hc)
    rcases pair_sublist_or (hmem a (by simp)) (hmem b (by simp)) (ne_of_pair_sublist hm hab)
      with hl | hl
    · rw [pair_sublist_insertionSort_iff r hl]
      exact (hall a b hl).mp hab
    · rw [pair_sublist_swap_iff hsorted hnodup hl, pair_sublist_insertionSort_iff r hl,
        ← hall b a hl]
      exact (pair_sublist_swap_iff hperm hnodup hl).mp hab

/-- Two orders sort a list in the same way. -/
theorem insertionSort_eq_iff (hnodup : l.Nodup) :
    l.insertionSort r' = l.insertionSort r ↔ ∀ a b, [a, b].Sublist l → (r' a b ↔ r a b) := by
  rw [eq_insertionSort_iff r (List.perm_insertionSort r' l) hnodup]
  refine forall₃_congr fun a b hab => ?_
  rw [pair_sublist_insertionSort_iff r' hab]

/-- A list may be sorted before, by an order that agrees where the second one has a
tie. -/
theorem insertionSort_insertionSort (hnodup : l.Nodup)
    (hties : ∀ a b, r a b → r b a → r' a b) :
    (l.insertionSort r').insertionSort r = l.insertionSort r := by
  have hpresorted := List.perm_insertionSort r' l
  have hsorted := List.perm_insertionSort r (l.insertionSort r')
  rw [eq_insertionSort_iff r (hsorted.trans hpresorted) hnodup]
  intro a b hab
  constructor
  · intro hsublist
    exact List.pairwise_iff_forall_sublist.mp (List.pairwise_insertionSort r _) hsublist
  · intro hr
    by_cases hba : r b a
    · have hpair := (pair_sublist_insertionSort_iff r' hab).mpr (hties a b hr hba)
      exact (pair_sublist_insertionSort_iff r hpair).mpr hr
    · by_cases hpair : [a, b].Sublist (l.insertionSort r')
      · exact (pair_sublist_insertionSort_iff r hpair).mpr hr
      · rw [← pair_sublist_swap_iff hpresorted hnodup hab] at hpair
        rw [pair_sublist_swap_iff hsorted (hpresorted.nodup_iff.mpr hnodup) hpair,
          pair_sublist_insertionSort_iff r hpair]
        exact hba

/-- Two orders sort a list in opposite ways. -/
theorem reverse_insertionSort_eq_iff (hnodup : l.Nodup) :
    (l.insertionSort r').reverse = l.insertionSort r ↔
      ∀ a b, [a, b].Sublist l → (¬ r' a b ↔ r a b) := by
  have hsorted := List.perm_insertionSort r' l
  rw [eq_insertionSort_iff r ((List.reverse_perm _).trans hsorted) hnodup]
  refine forall₃_congr fun a b hab => ?_
  have hreverse : [a, b].Sublist (l.insertionSort r').reverse ↔
      [b, a].Sublist (l.insertionSort r') := by
    rw [← List.reverse_sublist, List.reverse_reverse]
    rfl
  rw [hreverse, pair_sublist_swap_iff hsorted hnodup hab, pair_sublist_insertionSort_iff r' hab]

end

section
variable {r : α → α → Prop} [DecidableRel r] [IsTrans α r] {r' : β → β → Prop}
  [DecidableRel r'] {f : α → Option β}

theorem filterMap_orderedInsert (hf : ∀ a b x y, f a = some x → f b = some y → (r a b ↔ r' x y))
    (a : α) {l : List α} (hl : l.Pairwise r) :
    (l.orderedInsert r a).filterMap f =
      ((f a).map fun x => (l.filterMap f).orderedInsert r' x).getD (l.filterMap f) := by
  cases ha : f a with
  | none =>
      induction l with
      | nil => simp [ha]
      | cons b l ih =>
          rw [List.orderedInsert_cons]
          split
          · rw [List.filterMap_cons_none ha]
            rfl
          · have ih := ih hl.of_cons
            rw [List.filterMap_cons, List.filterMap_cons, ih]
            rfl
  | some x =>
      rw [Option.map_some, Option.getD_some]
      induction l with
      | nil => simp [ha]
      | cons b l ih =>
          obtain ⟨hb, hl⟩ := List.pairwise_cons.mp hl
          rw [List.orderedInsert_cons]
          split
          · rename_i hab
            rw [List.filterMap_cons_some ha]
            have hfirst : ∀ y ∈ (b :: l).filterMap f, r' x y := by
              intro y hy
              obtain ⟨c, hc, hfc⟩ := List.mem_filterMap.mp hy
              rw [← hf a c x y ha hfc]
              rcases List.mem_cons.mp hc with rfl | hc
              · exact hab
              · exact IsTrans.trans _ _ _ hab (hb c hc)
            cases hrest : (b :: l).filterMap f with
            | nil => rfl
            | cons y ys =>
                rw [List.orderedInsert_cons, if_pos]
                exact hfirst y (by rw [hrest]; exact List.mem_cons_self)
          · rename_i hab
            cases hfb : f b with
            | none => rw [List.filterMap_cons_none hfb, List.filterMap_cons_none hfb, ih hl]
            | some y =>
                have hxy : ¬ r' x y := by rwa [← hf a b x y ha hfb]
                rw [List.filterMap_cons_some hfb, List.filterMap_cons_some hfb, ih hl,
                  List.orderedInsert_cons, if_neg hxy]

/-- A stable sort keeps the order of a part of the list. -/
theorem filterMap_insertionSort [Std.Total r]
    (hf : ∀ a b x y, f a = some x → f b = some y → (r a b ↔ r' x y)) (l : List α) :
    (l.insertionSort r).filterMap f = (l.filterMap f).insertionSort r' := by
  induction l with
  | nil => rfl
  | cons a l ih =>
      rw [List.insertionSort_cons, filterMap_orderedInsert hf a (List.pairwise_insertionSort r l),
        ih]
      cases ha : f a with
      | none => rw [List.filterMap_cons_none ha]; rfl
      | some x => rw [List.filterMap_cons_some ha]; rfl
end

/-! ## Comparators -/

section
variable {K : Type} [LinearOrder K] [Zero K]

/-- A comparator that goes by a total preorder, as a sort requires. -/
structure ConsistentCompare (compare : α → α → K) : Prop where
  swap : ∀ a b, compare a b < 0 ↔ 0 < compare b a
  trans : ∀ a b c, compare a b ≤ 0 → compare b c ≤ 0 → compare a c ≤ 0

namespace ConsistentCompare

variable {compare compare' : α → α → K}

theorem total (h : ConsistentCompare compare) : Std.Total fun a b => compare a b ≤ 0 where
  total a b := by
    rcases le_or_gt (compare a b) 0 with hab | hab
    · exact .inl hab
    · exact .inr ((h.swap b a).mpr hab).le

theorem isTrans (h : ConsistentCompare compare) : IsTrans α fun a b => compare a b ≤ 0 where
  trans := h.trans

theorem comap (h : ConsistentCompare compare) (f : β → α) :
    ConsistentCompare fun a b => compare (f a) (f b) where
  swap _ _ := h.swap _ _
  trans _ _ _ := h.trans _ _ _

theorem eq_zero_comm (h : ConsistentCompare compare) {a b : α} :
    compare a b = 0 ↔ compare b a = 0 := by
  rw [le_antisymm_iff, le_antisymm_iff, ← not_lt, ← not_lt, ← not_lt, ← not_lt, h.swap a b,
    ← h.swap b a, and_comm]

/-- A second comparator decides where the first finds no difference. -/
theorem thenBy (h : ConsistentCompare compare) (h' : ConsistentCompare compare') :
    ConsistentCompare fun a b => if compare a b ≠ 0 then compare a b else compare' a b := by
  constructor
  · intro a b
    by_cases hab : compare a b = 0
    · rw [if_neg (not_not.mpr hab), if_neg (not_not.mpr (h.eq_zero_comm.mp hab))]
      exact h'.swap a b
    · rw [if_pos hab, if_pos (h.eq_zero_comm.not.mp hab)]
      exact h.swap a b
  · intro a b c hab hbc
    have hfirst : ∀ x y, (if compare x y ≠ 0 then compare x y else compare' x y) ≤ 0 →
        compare x y ≤ 0 ∧ (compare x y = 0 → compare' x y ≤ 0) := by
      intro x y hxy
      split at hxy
      · rename_i hne
        exact ⟨hxy, fun hzero => absurd hzero hne⟩
      · rename_i hzero
        exact ⟨(not_not.mp hzero).le, fun _ => hxy⟩
    obtain ⟨hab, hab'⟩ := hfirst a b hab
    obtain ⟨hbc, hbc'⟩ := hfirst b c hbc
    have hac := h.trans a b c hab hbc
    split
    · exact hac
    · rename_i hzero
      have hca : compare c a ≤ 0 := (h.eq_zero_comm.mp (not_not.mp hzero)).le
      -- A step down between `a` and `c` is a step down from `a` to `c`.
      have hzeroAb : compare a b = 0 := by
        refine hab.eq_of_not_lt fun hlt => ?_
        exact ((h.swap a b).mp hlt).not_ge (h.trans b c a hbc hca)
      have hzeroBc : compare b c = 0 := by
        refine hbc.eq_of_not_lt fun hlt => ?_
        exact ((h.swap b c).mp hlt).not_ge (h.trans c a b hca hab)
      exact h'.trans a b c (hab' hzeroAb) (hbc' hzeroBc)

end ConsistentCompare

theorem thenBy_eq_zero {x y : K} (h : (if x ≠ 0 then x else y) = 0) : x = 0 ∧ y = 0 := by
  by_cases hx : x = 0
  · rw [if_neg (not_not.mpr hx)] at h
    exact ⟨hx, h⟩
  · rw [if_pos hx] at h
    exact absurd h hx

end

/-- The difference of two numbers. -/
theorem consistentCompare_sub {K : Type} [AddCommGroup K] [LinearOrder K] [IsOrderedAddMonoid K]
    (key : α → K) : ConsistentCompare fun a b => key a - key b where
  swap a b := by rw [sub_neg, sub_pos]
  trans a b c := by
    simp only [sub_nonpos]
    exact le_trans

end Upriv
