import Mathlib.Data.List.DropRight
import Mathlib.Tactic.Common

/-!
# Texts

The parts of `str` that the code relies on: Unicode white space, trimming, and
ASCII case.
-/

namespace Upriv

instance lawfulBEq_listChar : LawfulBEq (List Char) := List.instLawfulBEq

/-- `char::is_whitespace`: the Unicode property `White_Space`. -/
def isWhitespace (c : Char) : Bool :=
  (0x09 ≤ c.val && c.val ≤ 0x0D) || c.val == 0x20 || c.val == 0x85 ||
  c.val == 0xA0 || c.val == 0x1680 || (0x2000 ≤ c.val && c.val ≤ 0x200A) ||
  c.val == 0x2028 || c.val == 0x2029 || c.val == 0x202F || c.val == 0x205F ||
  c.val == 0x3000

def trimEndChars (cs : List Char) : List Char := cs.rdropWhile isWhitespace

def trimChars (cs : List Char) : List Char :=
  trimEndChars (cs.dropWhile isWhitespace)

/-- `str::trim`. -/
def trim (s : String) : String := String.ofList (trimChars s.toList)

/-- `str::trim_end`. -/
def trimEnd (s : String) : String := String.ofList (trimEndChars s.toList)

/-- A text that trimming leaves alone. -/
def Trimmed (s : String) : Prop := trim s = s

instance (s : String) : Decidable (Trimmed s) :=
  inferInstanceAs (Decidable (trim s = s))

theorem trimChars_trimChars (cs : List Char) :
    trimChars (trimChars cs) = trimChars cs := by
  have hstart : (trimChars cs).dropWhile isWhitespace = trimChars cs := by
    rw [List.dropWhile_eq_self_iff]
    intro hpos
    have hprefix : trimChars cs <+: cs.dropWhile isWhitespace :=
      List.rdropWhile_prefix _ _
    obtain ⟨rest, hrest⟩ := hprefix
    have hne : cs.dropWhile isWhitespace ≠ [] := by
      rw [← hrest]
      simp [List.ne_nil_of_length_pos hpos]
    have hhead := List.head_dropWhile_not isWhitespace hne
    have hsame : (trimChars cs)[0] = (cs.dropWhile isWhitespace).head hne := by
      rw [List.head_eq_getElem]
      simp [← hrest, hpos]
    rw [hsame, hhead]
    exact Bool.false_ne_true
  unfold trimChars at hstart ⊢
  rw [hstart]
  exact List.rdropWhile_idempotent _ _

@[simp] theorem trim_trim (s : String) : trim (trim s) = trim s := by
  simp [trim, trimChars_trimChars]

theorem trimmed_trim (s : String) : Trimmed (trim s) := trim_trim s

theorem trimChars_of_no_whitespace {cs : List Char} (h : ∀ c ∈ cs, isWhitespace c = false) :
    trimChars cs = cs := by
  have hstart : cs.dropWhile isWhitespace = cs := by
    rw [List.dropWhile_eq_self_iff]
    intro hpos
    rw [h _ (List.getElem_mem hpos)]
    exact Bool.false_ne_true
  rw [trimChars, hstart, trimEndChars, List.rdropWhile_eq_self_iff]
  intro hne
  rw [h _ (List.getLast_mem hne)]
  exact Bool.false_ne_true

/-- `str::eq_ignore_ascii_case`. -/
def eqIgnoreAsciiCase (s t : String) : Bool :=
  s.toList.map Char.toLower == t.toList.map Char.toLower

end Upriv
