import Mathlib.Data.List.Nodup
import Mathlib.Tactic.Common

/-!
# Lists whose entries have keys

Looking an entry up by its key, when no two entries share one.
-/

namespace Upriv

section
variable {α κ : Type} [DecidableEq κ] {key : α → κ} {l : List α} {k : κ} {a : α}

theorem find?_key_eq_none : l.find? (key · = k) = none ↔ k ∉ l.map key := by
  rw [List.find?_eq_none, List.mem_map]
  constructor
  · rintro hall ⟨b, hb, hkey⟩
    exact hall b hb (decide_eq_true hkey)
  · intro hnot b hb hkey
    exact hnot ⟨b, hb, of_decide_eq_true hkey⟩

theorem find?_key_eq_some (hkeys : (l.map key).Nodup) :
    l.find? (key · = k) = some a ↔ a ∈ l ∧ key a = k := by
  constructor
  · intro hfind
    have hkey := List.find?_some hfind
    exact ⟨List.mem_of_find?_eq_some hfind, of_decide_eq_true hkey⟩
  · rintro ⟨ha, rfl⟩
    cases hfind : l.find? (key · = key a) with
    | none =>
        rw [find?_key_eq_none] at hfind
        exact absurd (List.mem_map_of_mem ha) hfind
    | some b =>
        have hb : b ∈ l := List.mem_of_find?_eq_some hfind
        have hkey := List.find?_some hfind
        rw [List.inj_on_of_nodup_map hkeys hb ha (of_decide_eq_true hkey)]

/-- A map that is built from a list has the last entry of each key. -/
theorem find?_key_reverse_eq_some (hkeys : (l.map key).Nodup) :
    l.reverse.find? (key · = k) = some a ↔ a ∈ l ∧ key a = k := by
  have hreverse : (l.reverse.map key).Nodup := by
    rw [List.map_reverse]
    exact List.nodup_reverse.mpr hkeys
  rw [find?_key_eq_some hreverse, List.mem_reverse]

theorem find?_key_reverse_eq_none : l.reverse.find? (key · = k) = none ↔ k ∉ l.map key := by
  rw [find?_key_eq_none, List.map_reverse, List.mem_reverse]

end

end Upriv
