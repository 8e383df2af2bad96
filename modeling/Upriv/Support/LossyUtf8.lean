import Upriv.Support.Bytes
import Mathlib.Data.Char

/-!
# Lossy UTF-8

`String::from_utf8_lossy`: a well-formed sequence is its character, and each maximal
part of a sequence that cannot go on is a replacement character.
-/

namespace Upriv

/-- `char::REPLACEMENT_CHARACTER`. -/
def REPLACEMENT : Char := '\uFFFD'

/-- How many bytes follow a leading byte, and the range of the first of them. -/
structure Lead where
  count : ℕ
  low : ℕ
  high : ℕ

/-- The leading bytes from 0x80 on. -/
def lead (b : UInt8) : Option Lead :=
  if 0xC2 ≤ b.toNat ∧ b.toNat ≤ 0xDF then some ⟨1, 0x80, 0xBF⟩
  else if b.toNat = 0xE0 then some ⟨2, 0xA0, 0xBF⟩
  else if b.toNat = 0xED then some ⟨2, 0x80, 0x9F⟩
  else if 0xE1 ≤ b.toNat ∧ b.toNat ≤ 0xEF then some ⟨2, 0x80, 0xBF⟩
  else if b.toNat = 0xF0 then some ⟨3, 0x90, 0xBF⟩
  else if 0xF1 ≤ b.toNat ∧ b.toNat ≤ 0xF3 then some ⟨3, 0x80, 0xBF⟩
  else if b.toNat = 0xF4 then some ⟨3, 0x80, 0x8F⟩
  else none

/-- The bytes at the front that go on with a sequence, at most `count`. -/
def continuation : ℕ → ℕ → ℕ → Bytes → Bytes
  | 0, _, _, _ => []
  | _ + 1, _, _, [] => []
  | count + 1, low, high, b :: bytes =>
    if low ≤ b.toNat ∧ b.toNat ≤ high then b :: continuation count 0x80 0xBF bytes else []

/-- The number of a sequence of two to four bytes. -/
def codePoint (b : UInt8) : Bytes → ℕ
  | [c] => (b.toNat - 0xC0) * 0x40 + (c.toNat - 0x80)
  | [c, d] => (b.toNat - 0xE0) * 0x1000 + (c.toNat - 0x80) * 0x40 + (d.toNat - 0x80)
  | [c, d, e] =>
    (b.toNat - 0xF0) * 0x40000 + (c.toNat - 0x80) * 0x1000 + (d.toNat - 0x80) * 0x40 +
      (e.toNat - 0x80)
  | _ => 0xFFFD

/-- The character of a sequence that starts with the byte, and its further bytes. -/
def nextChar (b : UInt8) (bytes : Bytes) : Char × Bytes :=
  match lead b with
  | none => (REPLACEMENT, [])
  | some l =>
    let further := continuation l.count l.low l.high bytes
    (if further.length = l.count then Char.ofNat (codePoint b further) else REPLACEMENT, further)

/-- `String::from_utf8_lossy`. -/
def fromUtf8Lossy : Bytes → List Char
  | [] => []
  | b :: bytes =>
    if b.toNat < 0x80 then Char.ofNat b.toNat :: fromUtf8Lossy bytes
    else (nextChar b bytes).1 :: fromUtf8Lossy (bytes.drop (nextChar b bytes).2.length)
termination_by bytes => bytes.length

/-! ## The bytes of a sequence -/

theorem continuation_prefix (count low high : ℕ) (bytes : Bytes) :
    continuation count low high bytes <+: bytes := by
  induction count, low, high, bytes using continuation.induct with
  | case1 => exact List.nil_prefix
  | case2 => exact List.nil_prefix
  | case3 count low high b bytes h ih =>
    rw [continuation, if_pos h]
    exact (List.prefix_cons_inj b).mpr ih
  | case4 count low high b bytes h =>
    rw [continuation, if_neg h]
    exact List.nil_prefix

theorem le_of_mem_continuation {count low high : ℕ} {bytes : Bytes} (hlow : 0x80 ≤ low)
    {c : UInt8} (hc : c ∈ continuation count low high bytes) : 0x80 ≤ c.toNat := by
  induction count, low, high, bytes using continuation.induct with
  | case1 => cases hc
  | case2 => cases hc
  | case3 count low high b bytes h ih =>
    rw [continuation, if_pos h, List.mem_cons] at hc
    rcases hc with rfl | hc
    · exact le_trans hlow h.1
    · exact ih (le_refl _) hc
  | case4 count low high b bytes h =>
    rw [continuation, if_neg h] at hc
    cases hc

section Sequence

variable {count low high : ℕ} {b : UInt8} {bytes : Bytes}

/-- A whole sequence, byte by byte. -/
theorem continuation_succ (h : (continuation (count + 1) low high bytes).length = count + 1) :
    ∃ c rest, (low ≤ c.toNat ∧ c.toNat ≤ high) ∧
      continuation (count + 1) low high bytes = c :: continuation count 0x80 0xBF rest ∧
      (continuation count 0x80 0xBF rest).length = count := by
  cases bytes with
  | nil => cases h
  | cons c rest =>
    by_cases hc : low ≤ c.toNat ∧ c.toNat ≤ high
    · rw [continuation, if_pos hc, List.length_cons, Nat.succ_inj] at h
      exact ⟨c, rest, hc, by rw [continuation, if_pos hc], h⟩
    · rw [continuation, if_neg hc] at h
      cases h

/-- A number of a character that is not ASCII. -/
def IsWide (n : ℕ) : Prop := 128 ≤ n ∧ n.isValidChar

theorem toNat_ofNat_of_isValidChar {n : ℕ} (h : n.isValidChar) : (Char.ofNat n).toNat = n := by
  rw [Char.ofNat, dif_pos h]
  rfl

theorem isWide_one (hb : 0xC2 ≤ b.toNat) (hlow : 0x80 ≤ low) (hhigh : high ≤ 0xBF)
    (hb' : b.toNat ≤ 0xDF) (h : (continuation 1 low high bytes).length = 1) :
    IsWide (codePoint b (continuation 1 low high bytes)) := by
  obtain ⟨c, rest, hc, heq, -⟩ := continuation_succ h
  have hpoint : codePoint b [c] = (b.toNat - 0xC0) * 0x40 + (c.toNat - 0x80) := rfl
  rw [heq, continuation, hpoint]
  simp only [IsWide, Nat.isValidChar]
  omega

theorem isWide_two (hb : 0xE0 ≤ b.toNat) (hb' : b.toNat ≤ 0xEF)
    (hE0 : b.toNat = 0xE0 → 0xA0 ≤ low) (hED : b.toNat = 0xED → high ≤ 0x9F)
    (hlow : 0x80 ≤ low) (hhigh : high ≤ 0xBF) (h : (continuation 2 low high bytes).length = 2) :
    IsWide (codePoint b (continuation 2 low high bytes)) := by
  obtain ⟨c, rest, hc, heq, hrest⟩ := continuation_succ h
  obtain ⟨d, rest, hd, heq', -⟩ := continuation_succ hrest
  have hpoint : codePoint b [c, d] =
      (b.toNat - 0xE0) * 0x1000 + (c.toNat - 0x80) * 0x40 + (d.toNat - 0x80) := rfl
  rw [heq, heq', continuation, hpoint]
  simp only [IsWide, Nat.isValidChar]
  omega

theorem isWide_three (hb : 0xF0 ≤ b.toNat) (hb' : b.toNat ≤ 0xF4)
    (hF0 : b.toNat = 0xF0 → 0x90 ≤ low) (hF4 : b.toNat = 0xF4 → high ≤ 0x8F)
    (hlow : 0x80 ≤ low) (hhigh : high ≤ 0xBF) (h : (continuation 3 low high bytes).length = 3) :
    IsWide (codePoint b (continuation 3 low high bytes)) := by
  obtain ⟨c, rest, hc, heq, hrest⟩ := continuation_succ h
  obtain ⟨d, rest, hd, heq', hrest'⟩ := continuation_succ hrest
  obtain ⟨e, rest, he, heq'', -⟩ := continuation_succ hrest'
  have hpoint : codePoint b [c, d, e] =
      (b.toNat - 0xF0) * 0x40000 + (c.toNat - 0x80) * 0x1000 + (d.toNat - 0x80) * 0x40 +
        (e.toNat - 0x80) := rfl
  rw [heq, heq', heq'', continuation, hpoint]
  simp only [IsWide, Nat.isValidChar]
  omega

theorem le_low_of_lead {l : Lead} (hl : lead b = some l) : 0x80 ≤ l.low := by
  unfold lead at hl
  split_ifs at hl <;> cases hl <;> decide

/-- Whole sequences are no overlong forms of ASCII and no surrogates. -/
theorem isWide_codePoint {l : Lead} (hl : lead b = some l)
    (h : (continuation l.count l.low l.high bytes).length = l.count) :
    IsWide (codePoint b (continuation l.count l.low l.high bytes)) := by
  unfold lead at hl
  split_ifs at hl <;> cases hl <;> dsimp only at h ⊢
  · exact isWide_one (by omega) (le_refl _) (le_refl _) (by omega) h
  · exact isWide_two (by omega) (by omega) (by omega) (by omega) (by omega) (by omega) h
  · exact isWide_two (by omega) (by omega) (by omega) (by omega) (by omega) (by omega) h
  · exact isWide_two (by omega) (by omega) (by omega) (by omega) (by omega) (by omega) h
  · exact isWide_three (by omega) (by omega) (by omega) (by omega) (by omega) (by omega) h
  · exact isWide_three (by omega) (by omega) (by omega) (by omega) (by omega) (by omega) h
  · exact isWide_three (by omega) (by omega) (by omega) (by omega) (by omega) (by omega) h

theorem le_toNat_nextChar : 128 ≤ (nextChar b bytes).1.toNat := by
  unfold nextChar
  split
  · decide
  · rename_i l hl
    dsimp only
    split
    · rename_i hlength
      have hwide := isWide_codePoint hl hlength
      rw [toNat_ofNat_of_isValidChar hwide.2]
      exact hwide.1
    · decide

theorem nextChar_prefix : (nextChar b bytes).2 <+: bytes := by
  unfold nextChar
  split
  · exact List.nil_prefix
  · exact continuation_prefix _ _ _ _

theorem le_of_mem_nextChar {c : UInt8} (hc : c ∈ (nextChar b bytes).2) : 0x80 ≤ c.toNat := by
  unfold nextChar at hc
  split at hc
  · cases hc
  · rename_i l hl
    exact le_of_mem_continuation (le_low_of_lead hl) hc

end Sequence

/-! ## ASCII -/

/-- The ASCII characters of the text are the ASCII bytes. -/
theorem countP_fromUtf8Lossy {p : Char → Bool} (hp : ∀ c, p c = true → c.toNat < 128)
    (bytes : Bytes) :
    (fromUtf8Lossy bytes).countP p = bytes.countP fun b => p (Char.ofNat b.toNat) := by
  have hwide : ∀ b : UInt8, 0x80 ≤ b.toNat → ¬ p (Char.ofNat b.toNat) = true := by
    intro b hb h
    have hvalid : b.toNat.isValidChar := Or.inl (lt_trans b.toNat_lt (by decide))
    have hlt := hp _ h
    rw [toNat_ofNat_of_isValidChar hvalid] at hlt
    omega
  induction bytes using fromUtf8Lossy.induct with
  | case1 => rw [fromUtf8Lossy, List.countP_nil, List.countP_nil]
  | case2 b bytes hb ih =>
    rw [fromUtf8Lossy, if_pos hb, List.countP_cons, List.countP_cons, ih]
  | case3 b bytes hb ih =>
    have hchar : ¬ p (nextChar b bytes).1 = true := fun h =>
      absurd (hp _ h) (Nat.not_lt.mpr le_toNat_nextChar)
    have hfurther : (nextChar b bytes).2.countP (fun b => p (Char.ofNat b.toNat)) = 0 :=
      List.countP_eq_zero.mpr fun c hc => hwide c (le_of_mem_nextChar hc)
    have hsplit : (nextChar b bytes).2 ++ bytes.drop (nextChar b bytes).2.length = bytes :=
      List.prefix_iff_eq_append.mp nextChar_prefix
    rw [fromUtf8Lossy, if_neg hb, List.countP_cons_of_neg hchar, ih,
      List.countP_cons_of_neg (p := fun b : UInt8 => p (Char.ofNat b.toNat))
        (hwide b (Nat.not_lt.mp hb))]
    conv_rhs => rw [← hsplit, List.countP_append, hfurther, Nat.zero_add]

theorem fromUtf8Lossy_of_ascii {bytes : Bytes} (h : ∀ b ∈ bytes, b.toNat < 0x80) :
    fromUtf8Lossy bytes = bytes.map fun b => Char.ofNat b.toNat := by
  induction bytes with
  | nil => rw [fromUtf8Lossy, List.map_nil]
  | cons b bytes ih =>
    rw [List.forall_mem_cons] at h
    rw [fromUtf8Lossy, if_pos h.1, ih h.2, List.map_cons]

end Upriv
