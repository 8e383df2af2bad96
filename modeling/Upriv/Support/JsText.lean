import Upriv.Support.Text
import Upriv.Support.Trimming

/-!
# JavaScript texts

The white space, the line terminators and the trimming of ECMAScript.
-/

namespace Upriv

/-- `WhiteSpace` and `LineTerminator` of ECMAScript. -/
def isJsWhitespace (c : Char) : Bool :=
  c.val == 0xFEFF || (isWhitespace c && c.val != 0x85)

/-- `LineTerminator` of ECMAScript: what `.` does not match. -/
def isLineTerminator (c : Char) : Bool :=
  c == '\n' || c == '\r' || c.val == 0x2028 || c.val == 0x2029

/-- `String.prototype.trimEnd`. -/
def jsTrimEndChars (cs : List Char) : List Char := cs.rdropWhile isJsWhitespace

/-- `String.prototype.trim`. -/
def jsTrimChars (cs : List Char) : List Char :=
  (cs.dropWhile isJsWhitespace).rdropWhile isJsWhitespace

theorem isJsWhitespace_iff {c : Char} :
    isJsWhitespace c = true ↔
      c.val = 0xFEFF ∨ (isWhitespace c = true ∧ c.val ≠ 0x85) := by
  simp [isJsWhitespace]

theorem jsTrimChars_eq (cs : List Char) :
    jsTrimChars cs = (jsTrimEndChars cs).dropWhile isJsWhitespace :=
  (rdropWhile_dropWhile cs).symm

theorem jsTrimChars_jsTrimChars (cs : List Char) :
    jsTrimChars (jsTrimChars cs) = jsTrimChars cs := by
  have hstart : (jsTrimChars cs).dropWhile isJsWhitespace = jsTrimChars cs := by
    rw [jsTrimChars, rdropWhile_dropWhile, List.dropWhile_idempotent]
  rw [jsTrimChars, hstart]
  exact List.rdropWhile_idempotent _ _

end Upriv
