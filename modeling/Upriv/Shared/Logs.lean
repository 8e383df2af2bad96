import Upriv.Logging.Format
import Upriv.Support.Backtrack
import Upriv.Support.JsText

/-!
# Reading log lines

`domain/logs/format.ts` and `parsed.ts`: the shared parser of the lines that
`logging/format.rs` writes.  The parser is a regular expression over JavaScript's
white space, the writer sanitizes by Rust's, and the two differ in three
characters.
-/

namespace Upriv.Shared

open Upriv.Logging

/-! ## The parser -/

/-- Parsed line level from rotated log files, or `UNKNOWN`. -/
inductive ParsedLogLevel where
  | known (level : LogLevel)
  | unknown
  deriving DecidableEq, Repr

structure ParsedLogLine where
  raw : List Char
  index : List Char
  timestamp : List Char
  level : ParsedLogLevel
  event : List Char
  fields : List Char
  deriving DecidableEq, Repr

/-- The groups of `LOG_LINE_RE`; the last one need not take part in a match. -/
structure LogLineGroups where
  index : List Char
  timestamp : List Char
  level : LogLevel
  event : List Char
  fields : Option (List Char)

/-- `\S` -/
def isNonSpace (c : Char) : Bool := !isJsWhitespace c

/-- `.` -/
def isDot (c : Char) : Bool := !isLineTerminator c

section Pattern

open Matcher

/-- `(DEBUG|INFO|WARN|ERROR)` -/
def levelGroup : Matcher Char LogLevel :=
  oneOf ([LogLevel.debug, .info, .warn, .error].map fun level => do
    let _ ← word level.asStr
    pure level)

/-- `(?:\s+(.*))?` -/
def fieldsGroup : Matcher Char (Option (List Char)) :=
  optional do
    let _ ← plus isJsWhitespace
    star isDot

/-- `/^(\d{4})\s+(\S+)\s+(DEBUG|INFO|WARN|ERROR)\s+(\S+)(?:\s+(.*))?$/` -/
def LOG_LINE_RE : Matcher Char LogLineGroups := do
  let index ← repeated Char.isDigit 4
  let _ ← plus isJsWhitespace
  let timestamp ← plus isNonSpace
  let _ ← plus isJsWhitespace
  let level ← levelGroup
  let _ ← plus isJsWhitespace
  let event ← plus isNonSpace
  let fields ← fieldsGroup
  let _ ← atEnd
  pure ⟨index, timestamp, level, event, fields⟩

end Pattern

def parseLogLine (line : List Char) : ParsedLogLine :=
  let trimmed := jsTrimEndChars line
  match LOG_LINE_RE.firstMatch trimmed with
  | none =>
    { raw := trimmed, index := [], timestamp := [], level := .unknown, event := trimmed,
      fields := [] }
  | some groups =>
    { raw := trimmed, index := groups.index, timestamp := groups.timestamp,
      level := .known groups.level, event := groups.event,
      fields := jsTrimChars (groups.fields.getD []) }

/-! ## What a round trip keeps -/

/-- The fields as a line carries them. -/
def emittedFields (fields : List (List Char × List Char)) : List Char :=
  fields.flatMap fun field => ' ' :: sanitizeToken field.1 ++ '=' :: sanitizeValue field.2

/-- The parser reads back what was logged. -/
structure RoundTrips (index : ℕ) (timestamp : List Char) (level : LogLevel)
    (event : List Char) (fields : List (List Char × List Char))
    (parsed : ParsedLogLine) : Prop where
  index_eq : parsed.index = zeroPadded 4 index
  timestamp_eq : parsed.timestamp = timestamp
  level_eq : parsed.level = .known level
  event_eq : parsed.event = sanitizeToken event
  fields_eq : parsed.fields = jsTrimChars (emittedFields fields)

/-- The line terminators that `sanitize_value` does not replace. -/
def isLineSeparator (c : Char) : Bool := c.val == 0x2028 || c.val == 0x2029

/-- No value breaks the line, unless at its trimmed end. -/
def FieldsOnOneLine (fields : List (List Char × List Char)) : Prop :=
  (∀ field ∈ fields.dropLast, ∀ c ∈ field.2, isLineSeparator c = false) ∧
    ∀ field ∈ fields.getLast?, ∀ c ∈ jsTrimEndChars field.2, isLineSeparator c = false

instance (fields : List (List Char × List Char)) : Decidable (FieldsOnOneLine fields) :=
  decidable_of_iff
    ((fields.dropLast.all fun field => field.2.all fun c => !isLineSeparator c) = true ∧
      (fields.getLast?.all fun field =>
        (jsTrimEndChars field.2).all fun c => !isLineSeparator c) = true)
    (by cases h : fields.getLast? <;> simp [FieldsOnOneLine, h])

/-! ## The two classes of white space -/

theorem isWhitespace_of_isLineTerminator {c : Char} (h : isLineTerminator c = true) :
    isWhitespace c = true := by
  simp only [isLineTerminator, Bool.or_eq_true, beq_iff_eq] at h
  rcases h with ((rfl | rfl) | h) | h
  · decide
  · decide
  · simp [isWhitespace, h]
  · simp [isWhitespace, h]

theorem isWhitespace_of_mem_sanitizeToken {raw : List Char} {c : Char}
    (h : c ∈ sanitizeToken raw) : isWhitespace c = false := by
  unfold sanitizeToken at h
  dsimp only at h
  split at h
  · rw [List.mem_singleton.mp h]
    decide
  · obtain ⟨d, -, hd⟩ := List.mem_map.mp h
    split at hd
    · rw [← hd]
      decide
    · rename_i hspace
      rw [← hd]
      exact Bool.eq_false_iff.mpr hspace

theorem sanitizeToken_ne_nil (raw : List Char) : sanitizeToken raw ≠ [] := by
  unfold sanitizeToken
  dsimp only
  split
  · exact List.cons_ne_nil _ _
  · rename_i hne
    rw [ne_eq, List.map_eq_nil_iff]
    intro hnil
    rw [hnil] at hne
    exact hne rfl

/-- The token keeps every character that Rust does not count as white space. -/
theorem mem_sanitizeToken_of_mem {raw : List Char} {c : Char} (hc : isWhitespace c = false)
    (hmem : c ∈ raw) : c ∈ sanitizeToken raw := by
  have htrim : c ∈ trimChars raw :=
    mem_rdropWhile_of_neg hc (mem_dropWhile_of_neg hc hmem)
  unfold sanitizeToken
  dsimp only
  rw [if_neg (by rw [List.isEmpty_iff]; exact List.ne_nil_of_mem htrim), List.mem_map]
  exact ⟨c, htrim, by rw [hc]; rfl⟩

theorem mem_of_mem_sanitizeToken {raw : List Char} {c : Char}
    (h : c ∈ sanitizeToken raw) : c = '_' ∨ c ∈ raw := by
  unfold sanitizeToken at h
  dsimp only at h
  split at h
  · exact .inl (List.mem_singleton.mp h)
  · obtain ⟨d, hd, heq⟩ := List.mem_map.mp h
    split at heq
    · exact .inl heq.symm
    · right
      rw [← heq]
      exact (List.dropWhile_sublist _).subset ((List.rdropWhile_prefix _ _).subset hd)

/-- A text without Rust's white space has JavaScript's only in `U+FEFF`. -/
theorem isNonSpace_iff {text : List Char} (htext : ∀ c ∈ text, isWhitespace c = false) :
    (∀ c ∈ text, isNonSpace c = true) ↔ '\uFEFF' ∉ text := by
  constructor
  · intro h hmem
    exact absurd (h _ hmem) (by decide)
  · intro h c hmem
    rw [isNonSpace, Bool.not_eq_true', Bool.eq_false_iff, ne_eq, isJsWhitespace_iff,
      htext c hmem]
    rintro (hc | ⟨hc, -⟩)
    · apply h
      have : c = '\uFEFF' := Char.ext hc
      rwa [← this]
    · exact Bool.noConfusion hc

theorem isNonSpace_sanitizeToken_iff (event : List Char) :
    (∀ c ∈ sanitizeToken event, isNonSpace c = true) ↔ '\uFEFF' ∉ event := by
  rw [isNonSpace_iff fun c => isWhitespace_of_mem_sanitizeToken, not_iff_not]
  constructor
  · intro h
    rcases mem_of_mem_sanitizeToken h with h | h
    · exact absurd h (by decide)
    · exact h
  · exact mem_sanitizeToken_of_mem (by decide)

/-! ## What the parser accepts -/

section Matches

open Matcher

theorem mem_fieldsGroup {text rest captured : List Char}
    (h : (some captured, rest) ∈ fieldsGroup text) : ∀ c ∈ captured, isDot c = true := by
  obtain ⟨_, afterSpace, -, hstar⟩ := mem_bind.mp (mem_optional h)
  exact mem_star hstar

/-- What the groups of a match hold. -/
theorem groups_of_match {text : List Char} {groups : LogLineGroups}
    (h : LOG_LINE_RE.firstMatch text = some groups) :
    (groups.timestamp ≠ [] ∧ ∀ c ∈ groups.timestamp, isNonSpace c = true) ∧
      (∀ c ∈ groups.event, isNonSpace c = true) ∧
      ∀ captured ∈ groups.fields, ∀ c ∈ captured, isDot c = true := by
  obtain ⟨rest, h⟩ := mem_of_firstMatch h
  obtain ⟨index, text₁, -, h⟩ := mem_bind.mp h
  obtain ⟨_, text₂, -, h⟩ := mem_bind.mp h
  obtain ⟨timestamp, text₃, htimestamp, h⟩ := mem_bind.mp h
  obtain ⟨_, text₄, -, h⟩ := mem_bind.mp h
  obtain ⟨level, text₅, -, h⟩ := mem_bind.mp h
  obtain ⟨_, text₆, -, h⟩ := mem_bind.mp h
  obtain ⟨event, text₇, hevent, h⟩ := mem_bind.mp h
  obtain ⟨fields, text₈, hfields, h⟩ := mem_bind.mp h
  obtain ⟨_, text₉, -, h⟩ := mem_bind.mp h
  rw [mem_pure, Prod.mk.injEq] at h
  rw [h.1]
  refine ⟨mem_plus htimestamp, (mem_plus hevent).2, ?_⟩
  intro captured hcaptured
  change fields = some captured at hcaptured
  rw [hcaptured] at hfields
  exact mem_fieldsGroup hfields

theorem levelGroup_bind {τ : Type} (level : LogLevel) (rest : List Char)
    (next : LogLevel → Matcher Char τ) :
    (levelGroup >>= next) (level.asStr ++ rest) = next level rest := by
  have hlevel : levelGroup (level.asStr ++ rest) = [(level, rest)] := by
    cases level <;>
      simp [levelGroup, oneOf, bind_apply, word, LogLevel.asStr, List.cons_prefix_cons]
  rw [bind_apply, hlevel, List.flatMap_cons, List.flatMap_nil, List.append_nil]

theorem not_isNonSpace {c : Char} (h : isJsWhitespace c = true) : isNonSpace c = false := by
  rw [isNonSpace, h]
  rfl

theorem not_isJsWhitespace {c : Char} (h : isNonSpace c = true) : isJsWhitespace c = false := by
  rwa [isNonSpace, Bool.not_eq_true'] at h

theorem not_isJsWhitespace_of_mem_asStr {level : LogLevel} {c : Char}
    (h : c ∈ level.asStr) : isJsWhitespace c = false := by
  have hall : (level.asStr.all fun c => !isJsWhitespace c) = true := by
    cases level <;> decide
  simp only [List.all_eq_true, Bool.not_eq_true'] at hall
  exact hall c h

theorem failsOn_levelGroup_bind {τ : Type} (next : LogLevel → Matcher Char τ) :
    (levelGroup >>= next).FailsOn isJsWhitespace := by
  apply failsOn_oneOf_bind
  rw [List.forall_mem_map]
  intro level _
  cases level <;> exact failsOn_word_bind (by decide) _ _

/-- What is left of the pattern after the event. -/
def afterEvent (index timestamp : List Char) (level : LogLevel) (event : List Char) :
    Matcher Char LogLineGroups := do
  let fields ← fieldsGroup
  let _ ← atEnd
  pure ⟨index, timestamp, level, event, fields⟩

theorem failsOn_afterEvent (index timestamp : List Char) (level : LogLevel)
    (event : List Char) : (afterEvent index timestamp level event).FailsOn isNonSpace := by
  apply failsOn_optional_bind
  · apply failsOn_plus_bind
    intro c
    exact not_isJsWhitespace
  · exact failsOn_atEnd_bind _ _

/-- The part of a line before its fields is split in one way. -/
theorem LOG_LINE_RE_append {index timestamp event gap rest : List Char} {level : LogLevel}
    (hlength : index.length = 4) (hdigits : ∀ c ∈ index, c.isDigit = true)
    (htimestamp : timestamp ≠ []) (htimestamp' : ∀ c ∈ timestamp, isNonSpace c = true)
    (hgap : gap ≠ []) (hgap' : ∀ c ∈ gap, isJsWhitespace c = true)
    (hevent : event ≠ []) (hevent' : ∀ c ∈ event, isNonSpace c = true)
    (hrest : ∀ c ∈ rest.head?, isJsWhitespace c = true) :
    LOG_LINE_RE (index ++ ([' '] ++ (timestamp ++ ([' '] ++
      (level.asStr ++ (gap ++ (event ++ rest))))))) =
    afterEvent index timestamp level event rest := by
  have hspace : ∀ c ∈ [' '], isJsWhitespace c = true :=
    List.forall_mem_singleton.mpr (by decide)
  have hspaceStop : ∀ c ∈ [' '], isNonSpace c = false :=
    List.forall_mem_singleton.mpr (by decide)
  have hlevel : level.asStr ≠ [] := by
    cases level <;> decide
  rw [LOG_LINE_RE, repeated_bind_append hlength hdigits]
  rw [plus_bind_append_append (by simp) hspace htimestamp
    (fun c hc => not_isJsWhitespace (htimestamp' c hc)) _
    (fun _ => failsOn_plus_bind (fun c => not_isNonSpace) _)]
  rw [plus_bind_append_append htimestamp htimestamp' (by simp) hspaceStop _
    (fun _ => failsOn_plus_bind (fun c => not_isJsWhitespace) _)]
  rw [plus_bind_append_append (by simp) hspace hlevel
    (fun _ => not_isJsWhitespace_of_mem_asStr) _
    (fun _ => failsOn_levelGroup_bind _)]
  rw [levelGroup_bind]
  rw [plus_bind_append_append hgap hgap' hevent
    (fun c hc => not_isJsWhitespace (hevent' c hc)) _
    (fun _ => failsOn_plus_bind (fun c => not_isNonSpace) _)]
  exact plus_bind_append hevent hevent' (fun c hc => not_isNonSpace (hrest c hc))
    (fun matched => failsOn_afterEvent index timestamp level matched)

/-- The fields are read when no line terminator is among them. -/
theorem firstMatch_afterEvent (index timestamp : List Char) (level : LogLevel)
    (event : List Char) {rest : List Char}
    (hrest : ∀ c ∈ rest.head?, isJsWhitespace c = true)
    (hdot : ∀ c ∈ rest.dropWhile isJsWhitespace, isDot c = true) :
    ∃ fields, (afterEvent index timestamp level event).firstMatch rest =
        some ⟨index, timestamp, level, event, fields⟩ ∧
      fields.getD [] = rest.dropWhile isJsWhitespace := by
  cases rest with
  | nil => exact ⟨none, rfl, rfl⟩
  | cons c cs =>
      have hc : isJsWhitespace c = true := hrest c rfl
      refine ⟨some ((c :: cs).dropWhile isJsWhitespace), ?_, rfl⟩
      apply firstMatch_optional_bind
      rw [bind_bind]
      apply firstMatch_plus_bind hc
      have htake : ((c :: cs).dropWhile isJsWhitespace).takeWhile isDot =
          (c :: cs).dropWhile isJsWhitespace := List.takeWhile_eq_self_iff.mpr hdot
      have hdrop : ((c :: cs).dropWhile isJsWhitespace).dropWhile isDot = [] :=
        List.dropWhile_eq_nil_iff.mpr hdot
      rw [firstMatch, star_bind (fun _ => failsOn_atEnd_bind _ _), htake, hdrop]
      rfl

end Matches

/-! ## What the writer emits -/

theorem not_isLineTerminator_of_mem_sanitizeToken {raw : List Char} {c : Char}
    (h : c ∈ sanitizeToken raw) : isLineTerminator c = false := by
  rw [Bool.eq_false_iff]
  intro hterminator
  have hspace := isWhitespace_of_isLineTerminator hterminator
  rw [isWhitespace_of_mem_sanitizeToken h] at hspace
  exact Bool.noConfusion hspace

theorem emittedFields_cons (field : List Char × List Char)
    (fields : List (List Char × List Char)) :
    emittedFields (field :: fields) = (' ' :: sanitizeToken field.1) ++
      '=' :: (sanitizeValue field.2 ++ emittedFields fields) := by
  rw [emittedFields, List.flatMap_cons, List.append_assoc, List.cons_append]
  rfl

theorem isJsWhitespace_break (c : Char) :
    isJsWhitespace (if c = '\n' ∨ c = '\r' then ' ' else c) = isJsWhitespace c := by
  split
  · rename_i hbreak
    rcases hbreak with rfl | rfl <;> decide
  · rfl

theorem jsTrimEndChars_sanitizeValue (value : List Char) :
    jsTrimEndChars (sanitizeValue value) = sanitizeValue (jsTrimEndChars value) :=
  rdropWhile_map isJsWhitespace_break value

/-- A value keeps the two terminators that are no line feed and no carriage return. -/
theorem forall_mem_sanitizeValue {value : List Char} :
    (∀ c ∈ sanitizeValue value, isLineTerminator c = false) ↔
      ∀ c ∈ value, isLineSeparator c = false := by
  rw [sanitizeValue, List.forall_mem_map]
  apply forall₂_congr
  intro c _
  split
  · rename_i hbreak
    rcases hbreak with rfl | rfl <;> decide
  · rename_i hbreak
    rw [not_or] at hbreak
    simp [isLineTerminator, isLineSeparator, hbreak]

theorem jsTrimEndChars_emittedFields_cons (field : List Char × List Char)
    (fields : List (List Char × List Char)) :
    jsTrimEndChars (emittedFields (field :: fields)) = (' ' :: sanitizeToken field.1) ++
      '=' :: jsTrimEndChars (sanitizeValue field.2 ++ emittedFields fields) := by
  rw [emittedFields_cons, jsTrimEndChars,
    rdropWhile_append ⟨'=', List.mem_cons_self, by decide⟩, rdropWhile_cons_of_neg (by decide)]
  rfl

theorem oneLine_front (field : List Char × List Char) :
    ∀ c ∈ ' ' :: sanitizeToken field.1, isLineTerminator c = false := by
  rw [List.forall_mem_cons]
  constructor
  · decide
  · intro c hc
    exact not_isLineTerminator_of_mem_sanitizeToken hc

theorem oneLine_jsTrimEndChars_iff (fields : List (List Char × List Char)) :
    (∀ c ∈ jsTrimEndChars (emittedFields fields), isLineTerminator c = false) ↔
      FieldsOnOneLine fields := by
  induction fields with
  | nil => simp [emittedFields, jsTrimEndChars, FieldsOnOneLine]
  | cons field fields ih =>
      rw [jsTrimEndChars_emittedFields_cons, List.forall_mem_append,
        and_iff_right (oneLine_front field), List.forall_mem_cons, and_iff_right (by decide)]
      cases fields with
      | nil =>
          have hnone : emittedFields [] = [] := rfl
          rw [hnone, List.append_nil, jsTrimEndChars_sanitizeValue, forall_mem_sanitizeValue]
          simp [FieldsOnOneLine]
      | cons next fields =>
          have hstop : ∃ c ∈ emittedFields (next :: fields), isJsWhitespace c = false := by
            refine ⟨'=', ?_, by decide⟩
            rw [emittedFields_cons]
            simp
          have htrim : jsTrimEndChars (sanitizeValue field.2 ++ emittedFields (next :: fields))
              = sanitizeValue field.2 ++ jsTrimEndChars (emittedFields (next :: fields)) :=
            rdropWhile_append hstop _
          rw [htrim, List.forall_mem_append, forall_mem_sanitizeValue, ih, FieldsOnOneLine,
            FieldsOnOneLine, List.dropLast_cons_cons, List.forall_mem_cons,
            List.getLast?_cons_cons, and_assoc]

/-- The white space before the fields holds no terminator. -/
theorem oneLine_jsTrimChars_iff (fields : List (List Char × List Char)) :
    (∀ c ∈ jsTrimChars (emittedFields fields), isLineTerminator c = false) ↔
      FieldsOnOneLine fields := by
  rw [← oneLine_jsTrimEndChars_iff, jsTrimChars_eq]
  constructor
  · intro h c hc
    cases fields with
    | nil => exact absurd hc List.not_mem_nil
    | cons field fields =>
        rw [jsTrimEndChars_emittedFields_cons] at h hc
        rw [List.mem_append] at hc
        rcases hc with hc | hc
        · exact oneLine_front field c hc
        · apply h c
          rw [List.dropWhile_append]
          split
          · rwa [List.dropWhile_cons_of_neg (by decide)]
          · exact List.mem_append_right _ hc
  · intro h c hc
    exact h c ((List.dropWhile_sublist _).subset hc)

/-! ## The round trip -/

/-- A line, with the padding of the event next to the fields. -/
theorem formatLogLine_eq (index : ℕ) (timestamp : List Char) (level : LogLevel)
    (event : List Char) (fields : List (List Char × List Char)) :
    formatLogLine index timestamp level event fields =
      (zeroPadded 4 index ++ ([' '] ++ (timestamp ++ ([' '] ++ (level.asStr ++
        (List.replicate (5 - level.asStr.length) ' ' ++ [' '])))))) ++
      (sanitizeToken event ++ (List.replicate (18 - (sanitizeToken event).length) ' ' ++
        emittedFields fields)) := by
  simp only [formatLogLine, List.rightpad, emittedFields, List.append_assoc,
    List.cons_append, List.nil_append]

theorem length_index {index : ℕ} (hindex : index ≤ 9999) : (zeroPadded 4 index).length = 4 := by
  apply length_zeroPadded
  rw [Nat.length_toDigits_le_iff (by omega) (by omega)]
  omega

theorem isJsWhitespace_of_mem_replicate {n : ℕ} {c : Char}
    (h : c ∈ List.replicate n ' ') : isJsWhitespace c = true := by
  rw [List.eq_of_mem_replicate h]
  decide

theorem jsTrimChars_spaces (n : ℕ) (text : List Char) :
    jsTrimChars (List.replicate n ' ' ++ text) = jsTrimChars text := by
  rw [jsTrimChars,
    List.dropWhile_append_of_pos (fun _ => isJsWhitespace_of_mem_replicate), jsTrimChars]

/-- What follows the event starts with white space. -/
theorem head_jsTrimEndChars (n : ℕ) (fields : List (List Char × List Char)) :
    ∀ c ∈ (jsTrimEndChars (List.replicate n ' ' ++ emittedFields fields)).head?,
      isJsWhitespace c = true := by
  intro c hc
  have hhead : (List.replicate n ' ' ++ emittedFields fields).head? = some c :=
    mem_head_of_mem_head_rdropWhile hc
  rw [List.head?_append, List.head?_replicate] at hhead
  split at hhead
  · cases fields with
    | nil => exact absurd hhead (by simp [emittedFields])
    | cons field fields =>
        rw [emittedFields_cons] at hhead
        have hspace : ' ' = c := Option.some.inj hhead
        rw [← hspace]
        decide
  · have hspace : ' ' = c := Option.some.inj hhead
    rw [← hspace]
    decide

/-- A line whose parts have no white space of their own is read back. -/
theorem roundTrips_of_oneLine {index : ℕ} (hindex : index ≤ 9999) {timestamp : List Char}
    (htimestamp : timestamp ≠ []) (htimestamp' : ∀ c ∈ timestamp, isNonSpace c = true)
    (level : LogLevel) {event : List Char}
    (hevent : ∀ c ∈ sanitizeToken event, isNonSpace c = true)
    {fields : List (List Char × List Char)} (hfields : FieldsOnOneLine fields) :
    RoundTrips index timestamp level event fields
      (parseLogLine (formatLogLine index timestamp level event fields)) := by
  set tail := List.replicate (18 - (sanitizeToken event).length) ' ' ++ emittedFields fields
    with htail
  set gap := List.replicate (5 - level.asStr.length) ' ' ++ [' '] with hgap
  have hevent' : ∀ c ∈ sanitizeToken event, isJsWhitespace c = false :=
    fun c hc => not_isJsWhitespace (hevent c hc)
  have hne : sanitizeToken event ≠ [] := sanitizeToken_ne_nil event
  have hstop : ∃ c ∈ sanitizeToken event ++ tail, isJsWhitespace c = false :=
    ⟨_, List.mem_append_left _ (List.head_mem hne), hevent' _ (List.head_mem hne)⟩
  have hline : jsTrimEndChars (formatLogLine index timestamp level event fields) =
      zeroPadded 4 index ++ ([' '] ++ (timestamp ++ ([' '] ++ (level.asStr ++ (gap ++
        (sanitizeToken event ++ jsTrimEndChars tail)))))) := by
    rw [formatLogLine_eq, jsTrimEndChars, rdropWhile_append hstop,
      rdropWhile_append_of_neg hevent']
    simp only [List.append_assoc, jsTrimEndChars, hgap]
  have hspaces : ∀ c ∈ gap, isJsWhitespace c = true := by
    rw [hgap, List.forall_mem_append]
    exact ⟨fun _ => isJsWhitespace_of_mem_replicate,
      List.forall_mem_singleton.mpr (by decide)⟩
  have htext : (jsTrimEndChars tail).dropWhile isJsWhitespace =
      jsTrimChars (emittedFields fields) := by
    rw [← jsTrimChars_eq, htail, jsTrimChars_spaces]
  have hdot : ∀ c ∈ (jsTrimEndChars tail).dropWhile isJsWhitespace, isDot c = true := by
    intro c hc
    rw [htext] at hc
    rw [isDot, (oneLine_jsTrimChars_iff fields).mpr hfields c hc]
    rfl
  have hhead := head_jsTrimEndChars (18 - (sanitizeToken event).length) fields
  obtain ⟨captured, hmatch, hcaptured⟩ :=
    firstMatch_afterEvent (zeroPadded 4 index) timestamp level (sanitizeToken event) hhead
      hdot
  have hfirst : LOG_LINE_RE.firstMatch
      (jsTrimEndChars (formatLogLine index timestamp level event fields)) =
      some ⟨zeroPadded 4 index, timestamp, level, sanitizeToken event, captured⟩ := by
    rw [hline, Matcher.firstMatch, LOG_LINE_RE_append (length_index hindex)
      (fun _ => isDigit_of_mem_zeroPadded) htimestamp htimestamp' (by simp [hgap]) hspaces hne
      hevent hhead]
    exact hmatch
  rw [parseLogLine]
  simp only [hfirst]
  constructor
  · rfl
  · rfl
  · rfl
  · rfl
  · change jsTrimChars (captured.getD []) = _
    rw [hcaptured, htext, jsTrimChars_jsTrimChars]

/-- Exactly the lines that come back. -/
theorem parseLogLine_formatLogLine_iff {index : ℕ} (hindex : index ≤ 9999)
    {timestamp : List Char} (htimestamp : ∀ c ∈ timestamp, isWhitespace c = false)
    (level : LogLevel) (event : List Char) (fields : List (List Char × List Char)) :
    RoundTrips index timestamp level event fields
        (parseLogLine (formatLogLine index timestamp level event fields)) ↔
      timestamp ≠ [] ∧ '\uFEFF' ∉ timestamp ∧ '\uFEFF' ∉ event ∧ FieldsOnOneLine fields := by
  rw [← isNonSpace_iff htimestamp, ← isNonSpace_sanitizeToken_iff event]
  constructor
  · intro h
    obtain ⟨groups, hmatch⟩ : ∃ groups, LOG_LINE_RE.firstMatch
        (jsTrimEndChars (formatLogLine index timestamp level event fields)) = some groups := by
      rw [← Option.ne_none_iff_exists']
      intro hnone
      have hlevel := h.level_eq
      rw [parseLogLine] at hlevel
      simp only [hnone] at hlevel
      exact ParsedLogLevel.noConfusion hlevel
    rw [parseLogLine] at h
    simp only [hmatch] at h
    obtain ⟨⟨hne, htimestampGroup⟩, heventGroup, hfieldsGroup⟩ := groups_of_match hmatch
    have htimestampEq : groups.timestamp = timestamp := h.timestamp_eq
    have heventEq : groups.event = sanitizeToken event := h.event_eq
    have hfieldsEq : jsTrimChars (groups.fields.getD []) = jsTrimChars (emittedFields fields) :=
      h.fields_eq
    rw [htimestampEq] at hne htimestampGroup
    rw [heventEq] at heventGroup
    refine ⟨hne, htimestampGroup, heventGroup, ?_⟩
    rw [← oneLine_jsTrimChars_iff, ← hfieldsEq]
    intro c hc
    have hmem : c ∈ groups.fields.getD [] :=
      (List.dropWhile_sublist _).subset ((List.rdropWhile_prefix _ _).subset hc)
    cases hfields : groups.fields with
    | none => simp [hfields] at hmem
    | some captured =>
        rw [hfields] at hmem
        have hdot := hfieldsGroup captured hfields c hmem
        rwa [isDot, Bool.not_eq_true'] at hdot
  · rintro ⟨hne, htimestampClass, heventClass, hfields⟩
    exact roundTrips_of_oneLine hindex hne htimestampClass level heventClass hfields

theorem parseLogLine_formatLogLine_iff_sample :
    RoundTrips 1 "2026-05-29T12:00:00.010Z".toList .info "app_start".toList
        [("version".toList, "0.2.0-demo".toList), ("vaults".toList, "4".toList)]
        (parseLogLine (formatLogLine 1 "2026-05-29T12:00:00.010Z".toList .info
          "app_start".toList
          [("version".toList, "0.2.0-demo".toList), ("vaults".toList, "4".toList)])) := by
  have htimestamp : ("2026-05-29T12:00:00.010Z".toList.all fun c => !isWhitespace c) = true := by
    decide +kernel
  simp only [List.all_eq_true, Bool.not_eq_true'] at htimestamp
  exact (parseLogLine_formatLogLine_iff (by decide) htimestamp _ _ _).mpr
    ⟨by decide +kernel, by decide +kernel, by decide +kernel, by decide +kernel⟩

/-- The sample of the writer's test, with a value that holds a line separator. -/
theorem parseLogLine_lineSeparator :
    ¬ RoundTrips 1 "2026-05-29T12:00:00.010Z".toList .info "app_start".toList
      [("path".toList, ['a', '\u2028', 'b'])]
      (parseLogLine (formatLogLine 1 "2026-05-29T12:00:00.010Z".toList .info
        "app_start".toList [("path".toList, ['a', '\u2028', 'b'])])) := by
  intro h
  have hlevel := h.level_eq
  revert hlevel
  decide +kernel

end Upriv.Shared
