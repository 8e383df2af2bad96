import Upriv.Support.Digits

/-!
# Time stamps

`time/mod.rs`: the civil calendar and the two formats of a moment.
-/

namespace Upriv

/-- Year, month, day, hour, minute and second. -/
structure CivilTime where
  year : ℕ
  month : ℕ
  day : ℕ
  hour : ℕ
  minute : ℕ
  second : ℕ
  deriving DecidableEq, Repr

/-- `utc_ymdhms`. -/
def utcYmdhms (seconds : ℕ) : CivilTime :=
  let z := seconds / 86400 + 719468
  let era := z / 146097
  let doe := z - era * 146097
  let yoe := (doe - doe / 1460 + doe / 36524 - doe / 146096) / 365
  let doy := doe - (365 * yoe + yoe / 4 - yoe / 100)
  let mp := (5 * doy + 2) / 153
  let month := if mp < 10 then mp + 3 else mp - 9
  { year := (yoe + era * 400 + if month ≤ 2 then 1 else 0) % UInt32.size
    month := month
    day := doy - (153 * mp + 2) / 5 + 1
    hour := seconds % 86400 / 3600
    minute := seconds % 86400 % 3600 / 60
    second := seconds % 86400 % 3600 % 60 }

/-- The first second of the year 10000. -/
def YEAR_10000 : ℕ := 253402300800

theorem utcYmdhms_year_lt {seconds : ℕ} (h : seconds < YEAR_10000) :
    (utcYmdhms seconds).year < 10000 := by
  unfold YEAR_10000 at h
  dsimp only [utcYmdhms]
  refine lt_of_le_of_lt (Nat.mod_le _ _) ?_
  split
  · split <;> omega
  · split <;> omega

theorem utcYmdhms_month_lt (seconds : ℕ) : (utcYmdhms seconds).month < 100 := by
  dsimp only [utcYmdhms]
  split <;> omega

theorem utcYmdhms_day_lt (seconds : ℕ) : (utcYmdhms seconds).day < 100 := by
  dsimp only [utcYmdhms]
  omega

theorem utcYmdhms_hour_lt (seconds : ℕ) : (utcYmdhms seconds).hour < 100 := by
  dsimp only [utcYmdhms]
  omega

theorem utcYmdhms_minute_lt (seconds : ℕ) : (utcYmdhms seconds).minute < 100 := by
  dsimp only [utcYmdhms]
  omega

theorem utcYmdhms_second_lt (seconds : ℕ) : (utcYmdhms seconds).second < 100 := by
  dsimp only [utcYmdhms]
  omega

/-! ## Formats -/

/-- `YYYYMMDDHHmmss`. -/
def CivilTime.filenameStamp (t : CivilTime) : List Char :=
  zeroPadded 4 t.year ++ zeroPadded 2 t.month ++ zeroPadded 2 t.day ++
    zeroPadded 2 t.hour ++ zeroPadded 2 t.minute ++ zeroPadded 2 t.second

def utcFilenameStamp (seconds : ℕ) : List Char := (utcYmdhms seconds).filenameStamp

/-- `YYYY-MM-DDTHH:mm:ss.mmmZ`. -/
def CivilTime.isoMillis (t : CivilTime) (millis : ℕ) : List Char :=
  zeroPadded 4 t.year ++ '-' :: zeroPadded 2 t.month ++ '-' :: zeroPadded 2 t.day ++
    'T' :: zeroPadded 2 t.hour ++ ':' :: zeroPadded 2 t.minute ++
    ':' :: zeroPadded 2 t.second ++ '.' :: zeroPadded 3 millis ++ ['Z']

def utcTimestampIsoMillis (seconds millis : ℕ) : List Char :=
  (utcYmdhms seconds).isoMillis millis

/-- Fourteen digits. -/
def IsStamp (stamp : List Char) : Prop :=
  stamp.length = 14 ∧ ∀ c ∈ stamp, c.isDigit = true

instance (stamp : List Char) : Decidable (IsStamp stamp) :=
  decidable_of_iff (stamp.length = 14 ∧ stamp.all Char.isDigit = true) <| by
    rw [IsStamp, List.all_eq_true]

theorem length_zeroPadded_two {n : ℕ} (h : n < 100) : (zeroPadded 2 n).length = 2 :=
  length_zeroPadded ((Nat.length_toDigits_le_iff (by omega) (by omega)).mpr h)

theorem length_zeroPadded_four {n : ℕ} (h : n < 10000) : (zeroPadded 4 n).length = 4 :=
  length_zeroPadded ((Nat.length_toDigits_le_iff (by omega) (by omega)).mpr h)

theorem isStamp_utcFilenameStamp {seconds : ℕ} (h : seconds < YEAR_10000) :
    IsStamp (utcFilenameStamp seconds) := by
  constructor
  · simp only [utcFilenameStamp, CivilTime.filenameStamp, List.length_append,
      length_zeroPadded_four (utcYmdhms_year_lt h),
      length_zeroPadded_two (utcYmdhms_month_lt seconds),
      length_zeroPadded_two (utcYmdhms_day_lt seconds),
      length_zeroPadded_two (utcYmdhms_hour_lt seconds),
      length_zeroPadded_two (utcYmdhms_minute_lt seconds),
      length_zeroPadded_two (utcYmdhms_second_lt seconds)]
  · intro c hc
    simp only [utcFilenameStamp, CivilTime.filenameStamp, List.mem_append] at hc
    rcases hc with ((((hc | hc) | hc) | hc) | hc) | hc <;> exact isDigit_of_mem_zeroPadded hc

theorem newline_not_mem_zeroPadded (width n : ℕ) : '\n' ∉ zeroPadded width n := by
  intro hmem
  have hdigit := isDigit_of_mem_zeroPadded hmem
  exact absurd hdigit (by decide)

/-- A timestamp is one line. -/
theorem newline_not_mem_isoMillis (t : CivilTime) (millis : ℕ) :
    '\n' ∉ t.isoMillis millis := by
  simp [CivilTime.isoMillis, newline_not_mem_zeroPadded]

end Upriv
