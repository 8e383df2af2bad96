import Upriv.Support.Text
import Upriv.Time

/-!
# Log lines

`logging/level.rs` and `logging/format.rs`.
-/

namespace Upriv.Logging

inductive LogLevel where
  | debug
  | info
  | warn
  | error
  deriving DecidableEq, Repr

namespace LogLevel

def asStr : LogLevel → List Char
  | .debug => ['D', 'E', 'B', 'U', 'G']
  | .info => ['I', 'N', 'F', 'O']
  | .warn => ['W', 'A', 'R', 'N']
  | .error => ['E', 'R', 'R', 'O', 'R']

/-- From quiet to loud, as in `Ord`. -/
def severity : LogLevel → ℕ
  | .debug => 0
  | .info => 1
  | .warn => 2
  | .error => 3

def enabledAt (level min : LogLevel) : Bool := min.severity ≤ level.severity

def filterStr : LogLevel → String
  | .error => "error"
  | .warn => "warn"
  | .info => "info"
  | .debug => "debug"

/-- What `[logging].level` says, "info" where it says nothing known. -/
def parseFilter (value : String) : LogLevel :=
  let trimmed := trim value
  if eqIgnoreAsciiCase trimmed "error" then .error
  else if eqIgnoreAsciiCase trimmed "warn" || eqIgnoreAsciiCase trimmed "warning" then .warn
  else if eqIgnoreAsciiCase trimmed "debug" then .debug
  else if eqIgnoreAsciiCase trimmed "info" then .info
  else .info

end LogLevel

def sanitizeToken (raw : List Char) : List Char :=
  let trimmed := trimChars raw
  if trimmed.isEmpty then ['_']
  else trimmed.map fun c => if isWhitespace c then '_' else c

def sanitizeValue (raw : List Char) : List Char :=
  raw.map fun c => if c = '\n' ∨ c = '\r' then ' ' else c

def formatLogLine (index : ℕ) (timestampIso : List Char) (level : LogLevel)
    (event : List Char) (fields : List (List Char × List Char)) : List Char :=
  zeroPadded 4 index ++ ' ' :: timestampIso ++ ' ' :: level.asStr.rightpad 5 ' ' ++
    ' ' :: (sanitizeToken event).rightpad 18 ' ' ++
    fields.flatMap fun field => ' ' :: sanitizeToken field.1 ++ '=' :: sanitizeValue field.2

/-- What a call of `log` writes, and when. -/
structure LogEntry where
  seconds : ℕ
  millis : ℕ
  level : LogLevel
  event : List Char
  fields : List (List Char × List Char)

def LogEntry.line (index : ℕ) (entry : LogEntry) : List Char :=
  formatLogLine index (utcTimestampIsoMillis entry.seconds entry.millis) entry.level
    entry.event entry.fields

/-! ## One line each -/

theorem newline_not_mem_sanitizeToken (raw : List Char) : '\n' ∉ sanitizeToken raw := by
  unfold sanitizeToken
  dsimp only
  split
  · decide
  · rw [List.mem_map]
    rintro ⟨c, -, hc⟩
    split at hc
    · exact absurd hc (by decide)
    · rename_i hspace
      subst hc
      exact hspace (by decide)

theorem newline_not_mem_sanitizeValue (raw : List Char) : '\n' ∉ sanitizeValue raw := by
  rw [sanitizeValue, List.mem_map]
  rintro ⟨c, -, hc⟩
  split at hc
  · exact absurd hc (by decide)
  · rename_i hbreak
    exact hbreak (.inl hc)

theorem newline_not_mem_rightpad {text : List Char} (h : '\n' ∉ text) (width : ℕ) :
    '\n' ∉ text.rightpad width ' ' := by
  rw [List.rightpad, List.mem_append, List.mem_replicate]
  rintro (hmem | ⟨-, hspace⟩)
  · exact h hmem
  · exact absurd hspace (by decide)

theorem newline_not_mem_fields (fields : List (List Char × List Char)) :
    '\n' ∉ fields.flatMap fun field =>
      ' ' :: sanitizeToken field.1 ++ '=' :: sanitizeValue field.2 := by
  rw [List.mem_flatMap]
  rintro ⟨field, -, hmem⟩
  simp [newline_not_mem_sanitizeToken, newline_not_mem_sanitizeValue] at hmem

theorem newline_not_mem_formatLogLine {timestamp : List Char} (htimestamp : '\n' ∉ timestamp)
    (index : ℕ) (level : LogLevel) (event : List Char)
    (fields : List (List Char × List Char)) :
    '\n' ∉ formatLogLine index timestamp level event fields := by
  have hlevel : '\n' ∉ level.asStr.rightpad 5 ' ' := by
    apply newline_not_mem_rightpad
    cases level <;> decide
  have hevent : '\n' ∉ (sanitizeToken event).rightpad 18 ' ' :=
    newline_not_mem_rightpad (newline_not_mem_sanitizeToken event) 18
  have hspace : '\n' ≠ ' ' := by decide
  unfold formatLogLine
  simp only [List.mem_append, List.mem_cons, newline_not_mem_zeroPadded, htimestamp, hlevel,
    hevent, hspace, newline_not_mem_fields, or_self, not_false_eq_true]

theorem newline_not_mem_line (index : ℕ) (entry : LogEntry) : '\n' ∉ entry.line index :=
  newline_not_mem_formatLogLine (newline_not_mem_isoMillis _ _) index entry.level entry.event
    entry.fields

/-! ## Lines of a file -/

/-- `BufRead::lines`: the last line need not be complete. -/
def bufLines : List Char → List (List Char)
  | [] => []
  | c :: cs =>
    if c = '\n' then [] :: bufLines cs
    else
      match bufLines cs with
      | [] => [[c]]
      | line :: lines => (c :: line) :: lines

theorem bufLines_append {line : List Char} (h : '\n' ∉ line) (rest : List Char) :
    bufLines (line ++ '\n' :: rest) = line :: bufLines rest := by
  induction line with
  | nil => rw [List.nil_append, bufLines, if_pos rfl]
  | cons c cs ih =>
      rw [List.mem_cons, not_or] at h
      rw [List.cons_append, bufLines, if_neg (Ne.symm h.1), ih h.2]

theorem bufLines_flatMap {lines : List (List Char)} (h : ∀ line ∈ lines, '\n' ∉ line) :
    bufLines (lines.flatMap (· ++ ['\n'])) = lines := by
  induction lines with
  | nil => rfl
  | cons line lines ih =>
      rw [List.forall_mem_cons] at h
      rw [List.flatMap_cons, List.append_assoc, List.singleton_append,
        bufLines_append h.1, ih h.2]

end Upriv.Logging
