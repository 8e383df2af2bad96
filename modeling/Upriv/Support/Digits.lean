import Mathlib.Algebra.Ring.Nat
import Mathlib.Data.Char
import Mathlib.Data.List.Infix
import Mathlib.Tactic.Common

/-!
# Numbers in texts

Decimal numbers with leading zeros, `str::parse::<u32>`, and the parts of a text
between separators.  A text is the list of its characters.
-/

namespace Upriv

/-! ## Decimal numbers -/

/-- `format!("{n:0width$}")`. -/
def zeroPadded (width n : ℕ) : List Char := (Nat.toDigits 10 n).leftpad width '0'

theorem isDigit_of_mem_zeroPadded {width n : ℕ} {c : Char} (h : c ∈ zeroPadded width n) :
    c.isDigit = true := by
  rw [zeroPadded, List.leftpad, List.mem_append, List.mem_replicate] at h
  rcases h with ⟨-, rfl⟩ | h
  · decide
  · exact Nat.isDigit_of_mem_toDigits (by omega) (by omega) h

theorem length_zeroPadded {width n : ℕ} (hdigits : (Nat.toDigits 10 n).length ≤ width) :
    (zeroPadded width n).length = width := by
  rw [zeroPadded, List.length_leftpad]
  exact max_eq_left hdigits

theorem zeroPadded_ne_nil (width n : ℕ) : zeroPadded width n ≠ [] := by
  intro h
  have hsuffix : Nat.toDigits 10 n <:+ zeroPadded width n := List.leftpad_suffix
  rw [h, List.suffix_nil] at hsuffix
  exact Nat.toDigits_ne_nil hsuffix

theorem ofDigitChars_zeroPadded (width n : ℕ) :
    Nat.ofDigitChars 10 (zeroPadded width n) 0 = n := by
  rw [zeroPadded, List.leftpad, Nat.ofDigitChars_append, Nat.ofDigitChars_replicate_zero,
    Nat.mul_zero, Nat.ofDigitChars_ten_toDigits]

/-! ## The order of decimal numbers -/

theorem digit_lt_ten {c : Char} (h : c.isDigit = true) : c.toNat - '0'.toNat < 10 := by
  rw [Char.isDigit_iff_toNat] at h
  have hzero : '0'.toNat = 48 := rfl
  have hnine : '9'.toNat = 57 := rfl
  omega

theorem ofDigitChars_lt_pow {digits : List Char} (h : ∀ c ∈ digits, c.isDigit = true) :
    Nat.ofDigitChars 10 digits 0 < 10 ^ digits.length := by
  induction digits with
  | nil => simp
  | cons c digits ih =>
    have hdigit := digit_lt_ten (h c (List.mem_cons_self ..))
    have hrest := ih fun c hc => h c (List.mem_cons_of_mem _ hc)
    rw [Nat.ofDigitChars_cons, Nat.ofDigitChars_eq_ofDigitChars_zero, List.length_cons,
      Nat.pow_succ, Nat.mul_zero, Nat.zero_add]
    calc
      10 ^ digits.length * (c.toNat - '0'.toNat) + Nat.ofDigitChars 10 digits 0 <
          10 ^ digits.length * (c.toNat - '0'.toNat) + 10 ^ digits.length :=
        Nat.add_lt_add_left hrest _
      _ = 10 ^ digits.length * (c.toNat - '0'.toNat + 1) := (Nat.mul_succ _ _).symm
      _ ≤ 10 ^ digits.length * 10 := Nat.mul_le_mul_left _ hdigit

/-- Decimal numbers of one length are in the order of their texts. -/
theorem lt_of_ofDigitChars_lt {digits later : List Char} (hlength : digits.length = later.length)
    (hdigits : ∀ c ∈ digits, c.isDigit = true) (hlater : ∀ c ∈ later, c.isDigit = true)
    (h : Nat.ofDigitChars 10 digits 0 < Nat.ofDigitChars 10 later 0) : digits < later := by
  induction digits generalizing later with
  | nil =>
    cases later with
    | nil => exact absurd h (lt_irrefl _)
    | cons d later => cases hlength
  | cons c digits ih =>
    cases later with
    | nil => cases hlength
    | cons d later =>
      have hrest := fun x hx => hdigits x (List.mem_cons_of_mem c hx)
      have hrest' := fun x hx => hlater x (List.mem_cons_of_mem d hx)
      have htail := ofDigitChars_lt_pow hrest'
      rw [List.length_cons, List.length_cons, Nat.succ_inj] at hlength
      rw [Nat.ofDigitChars_cons, Nat.ofDigitChars_cons, Nat.ofDigitChars_eq_ofDigitChars_zero,
        @Nat.ofDigitChars_eq_ofDigitChars_zero later, hlength] at h
      rw [List.cons_lt_cons_iff]
      rcases lt_trichotomy c d with hlt | rfl | hgt
      · exact Or.inl hlt
      · exact Or.inr ⟨rfl, ih hlength hrest hrest' (Nat.lt_of_add_lt_add_left h)⟩
      · have hstep : 10 * 0 + (d.toNat - '0'.toNat) + 1 ≤ 10 * 0 + (c.toNat - '0'.toNat) := by
          have hd := (Char.isDigit_iff_toNat.mp (hlater d (List.mem_cons_self ..))).1
          have hval : d.toNat < c.toNat := hgt
          omega
        have hmul := Nat.mul_le_mul_left (10 ^ later.length) hstep
        rw [Nat.mul_succ] at hmul
        omega

/-! ## Parsing -/

/-- `str::parse::<u32>`. -/
def parseU32 (text : List Char) : Option UInt32 :=
  let digits := if text.head? = some '+' then text.tail else text
  if digits ≠ [] ∧ digits.all Char.isDigit ∧ Nat.ofDigitChars 10 digits 0 < UInt32.size then
    some (UInt32.ofNat (Nat.ofDigitChars 10 digits 0))
  else none

theorem parseU32_zeroPadded (width : ℕ) (n : UInt32) :
    parseU32 (zeroPadded width n.toNat) = some n := by
  have hhead : (zeroPadded width n.toNat).head? ≠ some '+' := by
    intro hplus
    have hdigit := isDigit_of_mem_zeroPadded (List.mem_of_mem_head? hplus)
    exact absurd hdigit (by decide)
  have hall : (zeroPadded width n.toNat).all Char.isDigit = true :=
    List.all_eq_true.mpr fun _ => isDigit_of_mem_zeroPadded
  have hlt : n.toNat < UInt32.size := n.toNat_lt_size
  rw [parseU32, if_neg hhead, ofDigitChars_zeroPadded,
    if_pos ⟨zeroPadded_ne_nil _ _, hall, hlt⟩, UInt32.ofNat_toNat]

/-! ## Parts of a text -/

/-- `str::strip_prefix`. -/
def stripPrefix (pre text : List Char) : Option (List Char) :=
  if pre <+: text then some (text.drop pre.length) else none

/-- `str::strip_suffix`. -/
def stripSuffix (suf text : List Char) : Option (List Char) :=
  if suf <:+ text then some (text.take (text.length - suf.length)) else none

/-- `str::split_once` for one character. -/
def splitOnce (sep : Char) (text : List Char) : Option (List Char × List Char) :=
  if sep ∈ text then
    some (text.takeWhile (· ≠ sep), (text.dropWhile (· ≠ sep)).tail)
  else none

theorem stripPrefix_append (pre text : List Char) :
    stripPrefix pre (pre ++ text) = some text := by
  rw [stripPrefix, if_pos (List.prefix_append _ _), List.drop_left]

theorem stripSuffix_append (suf text : List Char) :
    stripSuffix suf (text ++ suf) = some text := by
  rw [stripSuffix, if_pos (List.suffix_append _ _)]
  simp

theorem splitOnce_append {sep : Char} {first : List Char} (h : sep ∉ first)
    (rest : List Char) : splitOnce sep (first ++ sep :: rest) = some (first, rest) := by
  have hfirst : ∀ c ∈ first, decide (c ≠ sep) = true := by
    intro c hc
    rw [decide_eq_true_eq]
    rintro rfl
    exact h hc
  rw [splitOnce, if_pos (by simp), List.takeWhile_append_of_pos hfirst,
    List.dropWhile_append_of_pos hfirst]
  simp

end Upriv
