import Upriv.Time

/-!
# Names of log files

`logging/names.rs` and the formats the writer uses: the current file is
`current-{seq:06}-{stamp}.log`, and archiving drops the first part.
-/

namespace Upriv.Logging

def CURRENT_PREFIX : List Char := ['c', 'u', 'r', 'r', 'e', 'n', 't', '-']

def LOG_SUFFIX : List Char := ['.', 'l', 'o', 'g']

/-- The two parts of `{seq}-{stamp}`, when the stamp is one. -/
def parseSeqStamp (seqPart stamp : List Char) : Option (UInt32 × List Char) :=
  if IsStamp stamp then (parseU32 seqPart).map (·, stamp) else none

def parseCurrentLogName (filename : List Char) : Option (UInt32 × List Char) := do
  let rest ← stripPrefix CURRENT_PREFIX filename
  let (seqPart, stampPart) ← splitOnce '-' rest
  let stamp ← stripSuffix LOG_SUFFIX stampPart
  parseSeqStamp seqPart stamp

def parseArchivedLogName (filename : List Char) : Option (UInt32 × List Char) := do
  if CURRENT_PREFIX <+: filename then none
  else
    let rest ← stripSuffix LOG_SUFFIX filename
    let (seqPart, stamp) ← splitOnce '-' rest
    parseSeqStamp seqPart stamp

def archivedLogName (seq : UInt32) (stamp : List Char) : List Char :=
  zeroPadded 6 seq.toNat ++ '-' :: stamp ++ LOG_SUFFIX

def currentLogName (seq : UInt32) (stamp : List Char) : List Char :=
  CURRENT_PREFIX ++ archivedLogName seq stamp

/-- The name that `archive_current_path` gives a file. -/
def archiveCurrentName (filename : List Char) : List Char :=
  (stripPrefix CURRENT_PREFIX filename).getD filename

/-- A `current-*` file. -/
def IsCurrent (filename : List Char) : Prop := CURRENT_PREFIX <+: filename

instance (filename : List Char) : Decidable (IsCurrent filename) :=
  inferInstanceAs (Decidable (CURRENT_PREFIX <+: filename))

/-! ## Reading the names that are written -/

variable {seq : UInt32} {stamp : List Char}

theorem dash_not_mem_zeroPadded (width n : ℕ) : '-' ∉ zeroPadded width n := by
  intro h
  exact absurd (isDigit_of_mem_zeroPadded h) (by decide)

theorem isCurrent_currentLogName : IsCurrent (currentLogName seq stamp) :=
  List.prefix_append _ _

theorem not_isCurrent_archivedLogName : ¬ IsCurrent (archivedLogName seq stamp) := by
  intro h
  obtain ⟨c, cs, hdigits⟩ : ∃ c cs, zeroPadded 6 seq.toNat = c :: cs :=
    List.exists_cons_of_ne_nil (zeroPadded_ne_nil _ _)
  have hdigit : c.isDigit = true :=
    isDigit_of_mem_zeroPadded (hdigits ▸ List.mem_cons_self)
  obtain ⟨rest, hrest⟩ := h
  rw [archivedLogName, hdigits] at hrest
  have hc : 'c' = c := (List.cons.inj hrest).1
  rw [← hc] at hdigit
  exact absurd hdigit (by decide)

theorem parseSeqStamp_zeroPadded (hstamp : IsStamp stamp) :
    parseSeqStamp (zeroPadded 6 seq.toNat) stamp = some (seq, stamp) := by
  rw [parseSeqStamp, if_pos hstamp, parseU32_zeroPadded]
  rfl

theorem parseCurrentLogName_current (hstamp : IsStamp stamp) :
    parseCurrentLogName (currentLogName seq stamp) = some (seq, stamp) := by
  have hrest : archivedLogName seq stamp =
      zeroPadded 6 seq.toNat ++ '-' :: (stamp ++ LOG_SUFFIX) := by
    simp [archivedLogName]
  simp only [parseCurrentLogName, currentLogName, stripPrefix_append, hrest,
    splitOnce_append (dash_not_mem_zeroPadded _ _), stripSuffix_append,
    parseSeqStamp_zeroPadded hstamp, Option.bind_eq_bind, Option.bind_some]

theorem parseArchivedLogName_archived (hstamp : IsStamp stamp) :
    parseArchivedLogName (archivedLogName seq stamp) = some (seq, stamp) := by
  have hnot : ¬ CURRENT_PREFIX <+: archivedLogName seq stamp := not_isCurrent_archivedLogName
  have hrest : stripSuffix LOG_SUFFIX (archivedLogName seq stamp) =
      some (zeroPadded 6 seq.toNat ++ '-' :: stamp) := stripSuffix_append _ _
  simp only [parseArchivedLogName, if_neg hnot, hrest,
    splitOnce_append (dash_not_mem_zeroPadded _ _), parseSeqStamp_zeroPadded hstamp,
    Option.bind_eq_bind, Option.bind_some]

theorem parseCurrentLogName_archived :
    parseCurrentLogName (archivedLogName seq stamp) = none := by
  have hnot : ¬ CURRENT_PREFIX <+: archivedLogName seq stamp := not_isCurrent_archivedLogName
  simp only [parseCurrentLogName, stripPrefix, if_neg hnot, Option.bind_eq_bind,
    Option.bind_none]

theorem parseArchivedLogName_current :
    parseArchivedLogName (currentLogName seq stamp) = none :=
  if_pos isCurrent_currentLogName

theorem archiveCurrentName_current :
    archiveCurrentName (currentLogName seq stamp) = archivedLogName seq stamp := by
  rw [archiveCurrentName, currentLogName, stripPrefix_append, Option.getD_some]

/-- No archived name is that of a current file: `current` is no number. -/
theorem not_isCurrent_archiveCurrentName {name : List Char} {parsed : UInt32 × List Char}
    (h : parseCurrentLogName name = some parsed) : ¬ IsCurrent (archiveCurrentName name) := by
  simp only [parseCurrentLogName, Option.bind_eq_bind, Option.bind_eq_some_iff] at h
  obtain ⟨rest, hrest, ⟨seqPart, stampPart⟩, hsplit, stamp, -, hparse⟩ := h
  rw [archiveCurrentName, hrest, Option.getD_some]
  rintro ⟨more, rfl⟩
  have hcurrent : splitOnce '-' (CURRENT_PREFIX ++ more) =
      some (['c', 'u', 'r', 'r', 'e', 'n', 't'], more) :=
    @splitOnce_append '-' ['c', 'u', 'r', 'r', 'e', 'n', 't'] (by decide) more
  rw [hcurrent] at hsplit
  cases hsplit
  have hnumber : parseU32 ['c', 'u', 'r', 'r', 'e', 'n', 't'] = none := by decide
  rw [parseSeqStamp, hnumber] at hparse
  split at hparse
  · cases hparse
  · cases hparse

theorem isCurrent_of_parse {name : List Char} {parsed : UInt32 × List Char}
    (h : parseCurrentLogName name = some parsed) : IsCurrent name := by
  simp only [parseCurrentLogName, stripPrefix, Option.bind_eq_bind, Option.bind_eq_some_iff] at h
  obtain ⟨rest, hrest, -⟩ := h
  split at hrest
  · assumption
  · cases hrest

end Upriv.Logging
