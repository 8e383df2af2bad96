import Mathlib.Tactic.Common

/-!
# Byte strings and UTF-8
-/

namespace Upriv

abbrev Bytes := List UInt8

/-- The UTF-8 bytes of a text. -/
def utf8 (cs : List Char) : Bytes := (String.ofList cs).toByteArray.data.toList

/-- The text of a UTF-8 byte string. -/
def decodeUtf8 (bytes : Bytes) : Option String := String.fromUTF8? ⟨bytes.toArray⟩

theorem utf8_injective : Function.Injective utf8 := by
  intro cs ds h
  have harr := Array.toList_inj.mp h
  have hstr : String.ofList cs = String.ofList ds :=
    String.toByteArray_inj.mp (ByteArray.ext harr)
  simpa using congrArg String.toList hstr

theorem decodeUtf8_utf8 (s : String) : decodeUtf8 (utf8 s.toList) = some s := by
  simp only [decodeUtf8, utf8, String.ofList_toList, String.fromUTF8?]
  rw [dif_pos s.isValidUTF8]
  rfl

theorem utf8_append (cs ds : List Char) : utf8 (cs ++ ds) = utf8 cs ++ utf8 ds := by
  rw [utf8, String.ofList_append, String.toByteArray_append, ByteArray.data_append,
    Array.toList_append]
  rfl

theorem length_utf8 (cs : List Char) : (utf8 cs).length = (String.ofList cs).utf8ByteSize := by
  rw [utf8, Array.length_toList]
  rfl

theorem length_utf8_le (cs : List Char) : (utf8 cs).length ≤ 4 * cs.length := by
  induction cs with
  | nil => simp [utf8]
  | cons c cs ih =>
    have hfirst : (utf8 [c]).length = c.utf8Size := by
      rw [length_utf8]
      simp
    have hsize := Char.utf8Size_le_four c
    rw [show c :: cs = [c] ++ cs from rfl, utf8_append, List.length_append, hfirst,
      List.length_append, List.length_singleton]
    omega

/-- What `decodeUtf8` accepts is the text of its bytes. -/
theorem utf8_of_decodeUtf8 {bytes : Bytes} {s : String} (h : decodeUtf8 bytes = some s) :
    utf8 s.toList = bytes := by
  unfold decodeUtf8 String.fromUTF8? at h
  split at h
  · cases h
    rw [utf8, String.ofList_toList]
    rfl
  · cases h

/-! ## Bytes of ASCII -/

theorem utf8_singleton (c : Char) : utf8 [c] = String.utf8EncodeChar c := by
  rw [utf8, String.toByteArray_ofList, List.utf8Encode_singleton]
  simp

/-- An ASCII byte is the encoding of its character. -/
theorem mem_utf8EncodeChar_of_lt {b : UInt8} (hb : b < 0x80) {c : Char}
    (h : b ∈ String.utf8EncodeChar c) : c.toNat = b.toNat := by
  rw [UInt8.lt_iff_toNat_lt] at hb
  have hb' : b.toNat < 128 := hb
  have hofNat : ∀ n, b = UInt8.ofNat n → b.toNat = n % 256 := by
    rintro n rfl
    exact UInt8.toNat_ofNat'
  unfold String.utf8EncodeChar at h
  dsimp only at h
  change c.val.toNat = b.toNat
  split at h
  · rw [List.mem_singleton] at h
    have hn := hofNat _ h
    omega
  · split at h
    · simp only [List.mem_cons, List.not_mem_nil, or_false] at h
      rcases h with h | h
      all_goals
        have hn := hofNat _ h
        omega
    · split at h
      · simp only [List.mem_cons, List.not_mem_nil, or_false] at h
        rcases h with h | h | h
        all_goals
          have hn := hofNat _ h
          omega
      · simp only [List.mem_cons, List.not_mem_nil, or_false] at h
        rcases h with h | h | h | h
        all_goals
          have hn := hofNat _ h
          omega

theorem newline_notMem_utf8 {cs : List Char} (h : '\n' ∉ cs) : 0x0A ∉ utf8 cs := by
  induction cs with
  | nil => exact List.not_mem_nil
  | cons c cs ih =>
      rw [List.mem_cons, not_or] at h
      rw [show c :: cs = [c] ++ cs from rfl, utf8_append, utf8_singleton, List.mem_append, not_or]
      refine ⟨fun hmem => h.1 ?_, ih h.2⟩
      exact (Char.toNat_inj.mp (mem_utf8EncodeChar_of_lt (by decide) hmem)).symm

end Upriv
