import Upriv.Support.CodeUnits
import Upriv.Support.Json

/-!
# The length of JSON texts

Nested compact objects, and how many code units a text takes in a JSON string.
-/

namespace Upriv.Json

/-! ## Writing -/

/-- A JSON string with its quotes. -/
def quoted (cs : List Char) : List Char := '"' :: (cs.flatMap escapeChar ++ ['"'])

def boolText : Bool → List Char
  | true => ['t', 'r', 'u', 'e']
  | false => ['f', 'a', 'l', 's', 'e']

def memberText (key : String) (value : List Char) : List Char := quoted key.toList ++ ':' :: value

/-- What follows a member, up to the closing brace. -/
def membersText : List (String × List Char) → List Char
  | [] => ['}']
  | (key, value) :: members => ',' :: (memberText key value ++ membersText members)

/-- A compact object of values that are written already. -/
def objectText : List (String × List Char) → List Char
  | [] => ['{', '}']
  | (key, value) :: members => '{' :: (memberText key value ++ membersText members)

/-! ## Lengths -/

/-- The characters that JSON writes with a backslash and one letter. -/
def isShortEscape (c : Char) : Bool :=
  ['"', '\\', '\x08', '\t', '\n', '\x0c', '\r'].contains c

/-- The other control characters: six characters each. -/
def isLongEscape (c : Char) : Bool := c.toNat < 32 && !isShortEscape c

theorem mem_escapedChars_of_isShortEscape {c : Char} (h : isShortEscape c = true) :
    c ∈ escapedChars := by
  have hall : (['"', '\\', '\x08', '\t', '\n', '\x0c', '\r'].all fun c =>
      decide (c ∈ escapedChars)) = true := by decide
  rw [isShortEscape, List.contains_iff_mem] at h
  exact of_decide_eq_true (List.all_eq_true.mp hall c h)

theorem mem_escapedChars_of_isLongEscape {c : Char} (h : isLongEscape c = true) :
    c ∈ escapedChars := by
  rw [isLongEscape, Bool.and_eq_true, decide_eq_true_eq] at h
  exact List.mem_cons_of_mem _ (List.mem_cons_of_mem _ (mem_controlChars h.1))

theorem length_utf16_escapeChar (c : Char) :
    (utf16 (escapeChar c)).length =
      (utf16Char c).length + 5 * (if isLongEscape c then 1 else 0) +
        (if isShortEscape c then 1 else 0) := by
  by_cases hc : c ∈ escapedChars
  · have hall : (escapedChars.all fun c => decide ((utf16 (escapeChar c)).length =
        (utf16Char c).length + 5 * (if isLongEscape c then 1 else 0) +
          (if isShortEscape c then 1 else 0))) = true := by decide +kernel
    exact of_decide_eq_true (List.all_eq_true.mp hall c hc)
  · have hlong : ¬ isLongEscape c = true := fun h => hc (mem_escapedChars_of_isLongEscape h)
    have hshort : ¬ isShortEscape c = true := fun h => hc (mem_escapedChars_of_isShortEscape h)
    rw [escapeChar_of_not_mem hc, if_neg hlong, if_neg hshort, utf16_cons, List.length_append]
    rfl

/-- The code units of a text inside a JSON string. -/
theorem length_utf16_escaped (cs : List Char) :
    (utf16 (cs.flatMap escapeChar)).length =
      (utf16 cs).length + 5 * cs.countP isLongEscape + cs.countP isShortEscape := by
  induction cs with
  | nil => rfl
  | cons c cs ih =>
    rw [List.flatMap_cons, length_utf16_append, length_utf16_escapeChar, ih, utf16_cons,
      List.length_append, List.countP_cons, List.countP_cons]
    omega

/-! ## Strings of JavaScript -/

/-- The escape of an unpaired surrogate. -/
def surrogateEscape (unit : UInt16) : List Char :=
  ['\\', 'u', hexDigit (unit.toNat / 0x1000), hexDigit (unit.toNat / 0x100 % 16),
    hexDigit (unit.toNat / 0x10 % 16), hexDigit (unit.toNat % 16)]

/-- The character of a surrogate pair. -/
def pairChar (high low : UInt16) : Char :=
  Char.ofNat (0x10000 + (high.toNat - 0xD800) * 0x400 + (low.toNat - 0xDC00))

/-- A code unit that is no half of a pair. -/
def unitText (unit : UInt16) : List Char :=
  if IsHigh unit ∨ IsLow unit then surrogateEscape unit else escapeChar (Char.ofNat unit.toNat)

/-- What `JSON.stringify` writes between the quotes. -/
def stringifyUnits : JsString → List Char
  | [] => []
  | [unit] => unitText unit
  | unit :: next :: rest =>
    if IsHigh unit ∧ IsLow next then pairChar unit next :: stringifyUnits rest
    else unitText unit ++ stringifyUnits (next :: rest)

theorem stringifyUnits_single {unit : UInt16} {rest : JsString}
    (h : ∀ next ∈ rest.head?, ¬ (IsHigh unit ∧ IsLow next)) :
    stringifyUnits (unit :: rest) = unitText unit ++ stringifyUnits rest := by
  cases rest with
  | nil => rw [stringifyUnits, stringifyUnits, List.append_nil]
  | cons next rest => rw [stringifyUnits, if_neg (h next rfl)]

theorem stringifyUnits_pair {high low : UInt16} (hhigh : IsHigh high) (hlow : IsLow low)
    (rest : JsString) :
    stringifyUnits (high :: low :: rest) = pairChar high low :: stringifyUnits rest := by
  rw [stringifyUnits, if_pos ⟨hhigh, hlow⟩]

/-- `JSON.stringify` of a string. -/
def stringifyString (s : JsString) : List Char := '"' :: (stringifyUnits s ++ ['"'])

end Upriv.Json
