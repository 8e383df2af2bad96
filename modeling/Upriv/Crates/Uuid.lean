import Mathlib.Tactic.Common

/-!
# The `uuid` crate

The store prints UUIDs into file names and into authenticated data and parses
them back from the index.  The crate is not part of the repository, so it is
a parameter: what the code relies on is that printing gives the 36-character
hyphenated form and that parsing accepts what was printed.
-/

namespace Upriv

/-- `uuid::Uuid` with `to_string` and `parse_str`. -/
structure UuidCrate where
  Uuid : Type
  toString : Uuid → String
  parseStr : String → Option Uuid
  /-- The hyphenated form has 32 digits and 4 hyphens. -/
  length_toString : ∀ u, (toString u).toList.length = 36
  parseStr_toString : ∀ u, parseStr (toString u) = some u

namespace UuidCrate

variable {U : UuidCrate}

theorem toString_injective : Function.Injective U.toString := by
  intro u v h
  have hu := U.parseStr_toString u
  rw [h, U.parseStr_toString v] at hu
  exact (Option.some.inj hu).symm

instance : DecidableEq U.Uuid := fun u v =>
  decidable_of_iff (U.toString u = U.toString v) toString_injective.eq_iff

/-! ## Canonical texts -/

def isLowerHex (c : Char) : Bool := c.isDigit || ('a' ≤ c && c ≤ 'f')

/-- Lowercase hexadecimal digits in groups of 8, 4, 4, 4 and 12. -/
def isHyphenated (cs : List Char) : Bool :=
  cs.length == 36 && cs.zipIdx.all fun (c, i) =>
    if i ∈ [8, 13, 18, 23] then c == '-' else isLowerHex c

theorem toLower_of_isLowerHex {c : Char} (h : isLowerHex c = true) :
    c.toLower = c := by
  simp only [isLowerHex, Char.isDigit, Bool.or_eq_true, Bool.and_eq_true,
    decide_eq_true_eq] at h
  refine dif_neg ?_
  rintro ⟨hlow, hhigh⟩
  rcases h with ⟨_, hle⟩ | ⟨hle, _⟩
  · exact absurd (UInt32.le_trans hlow hle) (by decide)
  · exact absurd (UInt32.le_trans hle hhigh) (by decide)

theorem map_toLower_of_isHyphenated {cs : List Char}
    (h : isHyphenated cs = true) : cs.map Char.toLower = cs := by
  simp only [isHyphenated, Bool.and_eq_true, List.all_eq_true] at h
  conv_rhs => rw [← List.map_id cs]
  apply List.map_congr_left
  intro c hc
  obtain ⟨i, hi, rfl⟩ := List.getElem_of_mem hc
  have hchar := h.2 (cs[i], i) (by simp [List.mem_zipIdx_iff_getElem?])
  dsimp only at hchar
  split at hchar
  · rw [eq_of_beq hchar]
    decide
  · exact toLower_of_isLowerHex hchar

theorem slash_notMem_of_isHyphenated {cs : List Char} (h : isHyphenated cs = true) :
    '/' ∉ cs := by
  simp only [isHyphenated, Bool.and_eq_true, List.all_eq_true] at h
  intro hc
  obtain ⟨i, hi, hslash⟩ := List.getElem_of_mem hc
  have hchar := h.2 (cs[i], i) (by simp [List.mem_zipIdx_iff_getElem?])
  rw [hslash] at hchar
  dsimp only at hchar
  split at hchar
  · exact absurd hchar (by decide)
  · exact absurd hchar (by decide)

/-- UUIDs as their canonical texts; parsing ignores case and takes the
hyphenated form only. -/
def hyphenated : UuidCrate where
  Uuid := { cs : List Char // isHyphenated cs = true }
  toString u := String.ofList u.1
  parseStr s :=
    if h : isHyphenated (s.toList.map Char.toLower) then some ⟨_, h⟩ else none
  length_toString u := by
    have h := u.2
    simp only [isHyphenated, Bool.and_eq_true, beq_iff_eq] at h
    rw [String.toList_ofList]
    exact h.1
  parseStr_toString u := by
    have h := map_toLower_of_isHyphenated u.2
    simp [h, u.2]

end UuidCrate

end Upriv
