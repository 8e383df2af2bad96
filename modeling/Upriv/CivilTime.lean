import Upriv.Time
import Upriv.Support.Calendar
import Mathlib.Tactic.IntervalCases

/-!
# The civil calendar is exact

`utc_ymdhms` counts in eras of 400 years from 1 March of year 0, so that the leap day
is the last of its year.
-/

namespace Upriv

/-! ## Days of an era -/

/-- A day of an era: whole centuries, then blocks of four years, then years, then days.
Day 365 is the leap day. -/
structure DayOfEra (century block year day : ℕ) : Prop where
  century_le : century ≤ 3
  block_le : block ≤ 24
  year_le : year ≤ 3
  day_le : day ≤ 365
  leap_year : day = 365 → year = 3
  leap_century : day = 365 → block = 24 → century = 3

theorem exists_dayOfEra {doe : ℕ} (h : doe < 146097) :
    ∃ century block year day, DayOfEra century block year day ∧
      doe = 36524 * century + 1461 * block + 365 * year + day := by
  -- The last century, and the last year of a block, have one day more.
  obtain ⟨century, inCentury, hdoe, hcentury, hinCentury⟩ :
      ∃ c r, doe = 36524 * c + r ∧ c ≤ 3 ∧ (r < 36524 ∨ r = 36524 ∧ c = 3) := by
    refine ⟨min 3 (doe / 36524), doe - 36524 * min 3 (doe / 36524), ?_, ?_, ?_⟩ <;> omega
  obtain ⟨block, inBlock, hblock, hinBlock⟩ :
      ∃ q r, inCentury = 1461 * q + r ∧ r < 1461 := by
    refine ⟨inCentury / 1461, inCentury % 1461, ?_, ?_⟩ <;> omega
  obtain ⟨year, day, hyear, hle, hday⟩ :
      ∃ y d, inBlock = 365 * y + d ∧ y ≤ 3 ∧ (d < 365 ∨ d = 365 ∧ y = 3) := by
    refine ⟨min 3 (inBlock / 365), inBlock - 365 * min 3 (inBlock / 365), ?_, ?_, ?_⟩ <;> omega
  refine ⟨century, block, year, day, ⟨hcentury, ?_, hle, ?_, ?_, ?_⟩, ?_⟩ <;> omega

variable {century block year day : ℕ}

theorem DayOfEra.div_1460 (h : DayOfEra century block year day) :
    ∃ late, (36524 * century + 1461 * block + 365 * year + day) / 1460 =
      25 * century + block + late ∧ late ≤ day ∧ day < 365 + late := by
  obtain ⟨hcentury, hblock, hyear, hday, hleapYear, -⟩ := h
  refine ⟨(24 * century + block + 365 * year + day) / 1460, ?_, ?_, ?_⟩
  · omega
  · omega
  · omega

theorem DayOfEra.div_36524 (h : DayOfEra century block year day) :
    (36524 * century + 1461 * block + 365 * year + day) / 36524 =
      century + (36524 * century + 1461 * block + 365 * year + day) / 146096 := by
  obtain ⟨hcentury, hblock, hyear, hday, hleapYear, hleapCentury⟩ := h
  have hinCentury : 1461 * block + 365 * year + day < 36524 ∨
      1461 * block + 365 * year + day = 36524 ∧ century = 3 := by omega
  rcases hinCentury with hlt | ⟨hlast, rfl⟩
  · have hera : (36524 * century + 1461 * block + 365 * year + day) / 146096 = 0 := by omega
    omega
  · omega

/-- The formula for the year of the era finds the year. -/
theorem DayOfEra.yearOfEra (h : DayOfEra century block year day) {doe : ℕ}
    (hdoe : doe = 36524 * century + 1461 * block + 365 * year + day) :
    (doe - doe / 1460 + doe / 36524 - doe / 146096) / 365 =
      100 * century + 4 * block + year := by
  obtain ⟨late, hblocks, hlate, hday⟩ := h.div_1460
  have hcenturies := h.div_36524
  rw [← hdoe] at hblocks hcenturies
  omega

theorem DayOfEra.dayOfYear (h : DayOfEra century block year day) {doe yoe : ℕ}
    (hdoe : doe = 36524 * century + 1461 * block + 365 * year + day)
    (hyoe : yoe = 100 * century + 4 * block + year) :
    doe - (365 * yoe + yoe / 4 - yoe / 100) = day := by
  obtain ⟨hcentury, hblock, hyear, -, -, -⟩ := h
  have hfour : yoe / 4 = 25 * century + block := by omega
  have hhundred : yoe / 100 = century := by omega
  omega

/-- Only a leap year ends its era year with day 365. -/
theorem DayOfEra.isLeap (h : DayOfEra century block year day) (hday : day = 365) (era : ℕ) :
    IsLeap (400 * era + (100 * century + 4 * block + year) + 1) := by
  obtain ⟨-, hblock, -, -, hleapYear, hleapCentury⟩ := h
  have hyear := hleapYear hday
  have hcentury := hleapCentury hday
  unfold IsLeap
  omega

theorem dayNumber_march (year : ℕ) :
    dayNumber year 3 1 + year / 100 = 365 * year + year / 4 + year / 400 + 60 := by
  -- March 1 is 306 days before the next year, whether or not this one is a leap year.
  have hyears := daysBeforeYear_add (year + 1)
  rw [daysBeforeYear, yearDays] at hyears
  simp only [dayNumber, daysBeforeMonth, monthDays]
  split at hyears
  · rename_i hleap
    rw [if_pos hleap]
    omega
  · rename_i hleap
    rw [if_neg hleap]
    omega

theorem DayOfEra.dayNumber_march (h : DayOfEra century block year day) (era : ℕ) :
    dayNumber (400 * era + (100 * century + 4 * block + year)) 3 1 =
      146097 * era + (36524 * century + 1461 * block + 365 * year) + 60 := by
  have hmarch := Upriv.dayNumber_march (400 * era + (100 * century + 4 * block + year))
  obtain ⟨hcentury, hblock, hyear, -, -, -⟩ := h
  have hfour : (400 * era + (100 * century + 4 * block + year)) / 4 =
      100 * era + 25 * century + block := by omega
  have hhundred : (400 * era + (100 * century + 4 * block + year)) / 100 =
      4 * era + century := by omega
  have hera : (400 * era + (100 * century + 4 * block + year)) / 400 = era := by omega
  omega

/-! ## Months from March -/

/-- `(153 * mp + 2) / 5` days before the month, in a year from March. -/
theorem dayNumber_month (year : ℕ) {mp : ℕ} (hmp : mp < 10) (d : ℕ) :
    dayNumber year (mp + 3) (d + 1) = dayNumber year 3 1 + (153 * mp + 2) / 5 + d := by
  simp only [dayNumber]
  interval_cases mp <;> simp only [daysBeforeMonth, monthDays] <;> omega

theorem dayNumber_next_year (year : ℕ) {mp : ℕ} (hmp : 10 ≤ mp) (hle : mp < 12) (d : ℕ) :
    dayNumber (year + 1) (mp - 9) (d + 1) = dayNumber year 3 1 + (153 * mp + 2) / 5 + d := by
  have hmonths := daysBeforeMonth_thirteen year
  simp only [dayNumber, daysBeforeYear, ← hmonths]
  interval_cases mp <;> simp only [daysBeforeMonth, monthDays, Nat.reduceSub] <;> omega

theorem isDate_month {year mp doy : ℕ} (hmp : mp = (5 * doy + 2) / 153) (hlt : mp < 10) :
    IsDate year (mp + 3) (doy - (153 * mp + 2) / 5 + 1) := by
  refine ⟨by omega, by omega, by omega, ?_⟩
  interval_cases mp <;> simp only [monthDays] <;> omega

theorem isDate_next_year {year mp doy : ℕ} (hmp : mp = (5 * doy + 2) / 153) (hge : 10 ≤ mp)
    (hdoy : doy ≤ 365) (hleap : doy = 365 → IsLeap (year + 1)) :
    IsDate (year + 1) (mp - 9) (doy - (153 * mp + 2) / 5 + 1) := by
  have hlt : mp < 12 := by omega
  refine ⟨by omega, by omega, by omega, ?_⟩
  interval_cases mp
  · simp only [monthDays]
    omega
  · simp only [monthDays]
    split
    · omega
    · rename_i hnot
      have hne : doy ≠ 365 := fun h => hnot (hleap h)
      omega

/-! ## The conversion -/

theorem dayNumber_epoch : dayNumber 1970 1 1 = 719528 := by
  have hyears := daysBeforeYear_add 1970
  simp only [dayNumber, daysBeforeMonth]
  omega

theorem exists_era (seconds : ℕ) :
    ∃ era century block year day, DayOfEra century block year day ∧
      seconds / 86400 + 719468 =
        146097 * era + (36524 * century + 1461 * block + 365 * year + day) := by
  have hlt : (seconds / 86400 + 719468) % 146097 < 146097 := Nat.mod_lt _ (by omega)
  obtain ⟨century, block, year, day, hday, hdoe⟩ := exists_dayOfEra hlt
  refine ⟨(seconds / 86400 + 719468) / 146097, century, block, year, day, hday, ?_⟩
  rw [← hdoe]
  exact (Nat.div_add_mod _ _).symm

section Conversion

variable {seconds era : ℕ} (h : DayOfEra century block year day)
  (hz : seconds / 86400 + 719468 =
    146097 * era + (36524 * century + 1461 * block + 365 * year + day))

include h hz

/-- The date in terms of the month `mp` from March. -/
theorem utcYmdhms_fields :
    (utcYmdhms seconds).month =
        (if (5 * day + 2) / 153 < 10 then (5 * day + 2) / 153 + 3
          else (5 * day + 2) / 153 - 9) ∧
      (utcYmdhms seconds).year =
        (400 * era + (100 * century + 4 * block + year) +
          if (utcYmdhms seconds).month ≤ 2 then 1 else 0) % UInt32.size ∧
      (utcYmdhms seconds).day = day - (153 * ((5 * day + 2) / 153) + 2) / 5 + 1 := by
  have hbound : 36524 * century + 1461 * block + 365 * year + day < 146097 := by
    obtain ⟨hcentury, hblock, hyear, hday, hleapYear, hleapCentury⟩ := h
    omega
  have hera : (seconds / 86400 + 719468) / 146097 = era := by omega
  have hdoe : seconds / 86400 + 719468 - era * 146097 =
      36524 * century + 1461 * block + 365 * year + day := by omega
  have hyoe := h.yearOfEra rfl
  have hdoy := h.dayOfYear rfl rfl
  have hswap : 100 * century + 4 * block + year + era * 400 =
      400 * era + (100 * century + 4 * block + year) := by omega
  refine ⟨?_, ?_, ?_⟩
  · simp only [utcYmdhms, hera, hdoe, hyoe, hdoy]
  · simp only [utcYmdhms, hera, hdoe, hyoe, hdoy, hswap]
  · simp only [utcYmdhms, hera, hdoe, hyoe, hdoy]

end Conversion

theorem utcYmdhms_date {seconds : ℕ} (h : seconds < YEAR_10000) :
    IsDate (utcYmdhms seconds).year (utcYmdhms seconds).month (utcYmdhms seconds).day ∧
      dayNumber (utcYmdhms seconds).year (utcYmdhms seconds).month (utcYmdhms seconds).day =
        dayNumber 1970 1 1 + seconds / 86400 := by
  obtain ⟨era, century, block, year, day, hday, hz⟩ := exists_era seconds
  obtain ⟨hmonth, hyear, hdate⟩ := utcYmdhms_fields hday hz
  have hmarch := hday.dayNumber_march era
  have hepoch := dayNumber_epoch
  have hle := hday.day_le
  obtain ⟨Y, hY⟩ : ∃ Y, Y = 400 * era + (100 * century + 4 * block + year) := ⟨_, rfl⟩
  obtain ⟨mp, hmp⟩ : ∃ mp, mp = (5 * day + 2) / 153 := ⟨_, rfl⟩
  have hsmall : Y + 1 < UInt32.size := by
    have hcentury := hday.century_le
    have hblock := hday.block_le
    have hyear := hday.year_le
    unfold YEAR_10000 at h
    simp only [UInt32.size]
    omega
  rw [← hmp] at hmonth hdate
  rw [← hY] at hyear hmarch
  rcases Nat.lt_or_ge mp 10 with hlt | hge
  · rw [if_pos hlt] at hmonth
    rw [hmonth, if_neg (by omega), Nat.mod_eq_of_lt (by omega)] at hyear
    rw [hmonth, hyear, hdate]
    refine ⟨isDate_month hmp hlt, ?_⟩
    rw [Nat.add_zero, dayNumber_month Y hlt]
    omega
  · rw [if_neg (by omega)] at hmonth
    rw [hmonth, if_pos (by omega), Nat.mod_eq_of_lt hsmall] at hyear
    rw [hmonth, hyear, hdate]
    refine ⟨isDate_next_year hmp hge hle ?_, ?_⟩
    · intro hlast
      rw [hY]
      exact hday.isLeap hlast era
    · rw [dayNumber_next_year Y hge (by omega)]
      omega

theorem utcYmdhms_clock_lt (seconds : ℕ) :
    (utcYmdhms seconds).hour < 24 ∧ (utcYmdhms seconds).minute < 60 ∧
      (utcYmdhms seconds).second < 60 := by
  dsimp only [utcYmdhms]
  refine ⟨?_, ?_, ?_⟩
  · omega
  · omega
  · omega

theorem utcYmdhms_clock (seconds : ℕ) :
    3600 * (utcYmdhms seconds).hour + 60 * (utcYmdhms seconds).minute +
      (utcYmdhms seconds).second = seconds % 86400 := by
  dsimp only [utcYmdhms]
  omega

theorem earlier_of_clock_lt {seconds later : ℕ} (h : seconds % 86400 < later % 86400) :
    (utcYmdhms seconds).hour < (utcYmdhms later).hour ∨
      (utcYmdhms seconds).hour = (utcYmdhms later).hour ∧
        ((utcYmdhms seconds).minute < (utcYmdhms later).minute ∨
          (utcYmdhms seconds).minute = (utcYmdhms later).minute ∧
            (utcYmdhms seconds).second < (utcYmdhms later).second) := by
  rw [← utcYmdhms_clock, ← utcYmdhms_clock later] at h
  obtain ⟨-, hminute, hsecond⟩ := utcYmdhms_clock_lt seconds
  obtain ⟨-, hminute', hsecond'⟩ := utcYmdhms_clock_lt later
  rcases lt_trichotomy (utcYmdhms seconds).hour (utcYmdhms later).hour with hlt | heq | hgt
  · exact Or.inl hlt
  · refine Or.inr ⟨heq, ?_⟩
    rw [heq] at h
    omega
  · omega

/-! ## Stamps in order -/

theorem ofDigitChars_two {n : ℕ} (h : n < 100) (init : ℕ) :
    Nat.ofDigitChars 10 (zeroPadded 2 n) init = 100 * init + n := by
  rw [Nat.ofDigitChars_eq_ofDigitChars_zero, ofDigitChars_zeroPadded, length_zeroPadded_two h]

/-- The number that a stamp writes. -/
def CivilTime.stampNumber (t : CivilTime) : ℕ :=
  100 * (100 * (100 * (100 * (100 * t.year + t.month) + t.day) + t.hour) + t.minute) + t.second

theorem ofDigitChars_utcFilenameStamp (seconds : ℕ) :
    Nat.ofDigitChars 10 (utcFilenameStamp seconds) 0 = (utcYmdhms seconds).stampNumber := by
  rw [utcFilenameStamp, CivilTime.filenameStamp, Nat.ofDigitChars_append,
    Nat.ofDigitChars_append, Nat.ofDigitChars_append, Nat.ofDigitChars_append,
    Nat.ofDigitChars_append, ofDigitChars_zeroPadded,
    ofDigitChars_two (utcYmdhms_month_lt seconds), ofDigitChars_two (utcYmdhms_day_lt seconds),
    ofDigitChars_two (utcYmdhms_hour_lt seconds), ofDigitChars_two (utcYmdhms_minute_lt seconds),
    ofDigitChars_two (utcYmdhms_second_lt seconds), CivilTime.stampNumber]

theorem utcYmdhms_same_day {seconds later : ℕ} (h : seconds / 86400 = later / 86400) :
    (utcYmdhms seconds).year = (utcYmdhms later).year ∧
      (utcYmdhms seconds).month = (utcYmdhms later).month ∧
        (utcYmdhms seconds).day = (utcYmdhms later).day := by
  dsimp only [utcYmdhms]
  rw [h]
  exact ⟨rfl, rfl, rfl⟩

theorem stampNumber_lt {seconds later : ℕ} (hlt : seconds < later) (h : later < YEAR_10000) :
    (utcYmdhms seconds).stampNumber < (utcYmdhms later).stampNumber := by
  obtain ⟨-, hnumber⟩ := utcYmdhms_date (lt_trans hlt h)
  obtain ⟨hdate, hnumber'⟩ := utcYmdhms_date h
  have hmonth := utcYmdhms_month_lt seconds
  have hday := utcYmdhms_day_lt seconds
  have hhour := utcYmdhms_hour_lt seconds
  have hminute := utcYmdhms_minute_lt seconds
  have hsecond := utcYmdhms_second_lt seconds
  unfold CivilTime.stampNumber
  rcases Nat.lt_or_ge (seconds / 86400) (later / 86400) with hdays | hdays
  · have hnumbers :
        dayNumber (utcYmdhms seconds).year (utcYmdhms seconds).month (utcYmdhms seconds).day <
          dayNumber (utcYmdhms later).year (utcYmdhms later).month (utcYmdhms later).day := by
      omega
    have hearlier := hdate.earlier_of_dayNumber_lt hnumbers
    omega
  · have hsame : seconds / 86400 = later / 86400 :=
      le_antisymm (Nat.div_le_div_right (le_of_lt hlt)) hdays
    obtain ⟨hyear, hmonth', hday'⟩ := utcYmdhms_same_day hsame
    have hearlier := earlier_of_clock_lt (by omega : seconds % 86400 < later % 86400)
    have hminute' := utcYmdhms_minute_lt later
    rw [hyear, hmonth', hday']
    omega

/-- Before the year 10000 the civil time is exact, and the stamps of later seconds are
later texts. -/
theorem utcYmdhms_exact {seconds : ℕ} (h : seconds < YEAR_10000) :
    (IsDate (utcYmdhms seconds).year (utcYmdhms seconds).month (utcYmdhms seconds).day ∧
      (utcYmdhms seconds).hour < 24 ∧ (utcYmdhms seconds).minute < 60 ∧
        (utcYmdhms seconds).second < 60) ∧
      dayNumber (utcYmdhms seconds).year (utcYmdhms seconds).month (utcYmdhms seconds).day =
        dayNumber 1970 1 1 + seconds / 86400 ∧
      3600 * (utcYmdhms seconds).hour + 60 * (utcYmdhms seconds).minute +
        (utcYmdhms seconds).second = seconds % 86400 ∧
      IsStamp (utcFilenameStamp seconds) ∧
      ∀ earlier < seconds, utcFilenameStamp earlier < utcFilenameStamp seconds := by
  obtain ⟨hdate, hnumber⟩ := utcYmdhms_date h
  refine ⟨⟨hdate, utcYmdhms_clock_lt seconds⟩, hnumber, utcYmdhms_clock seconds,
    isStamp_utcFilenameStamp h, ?_⟩
  intro earlier hlt
  have hstamp := isStamp_utcFilenameStamp h
  have hearlier := isStamp_utcFilenameStamp (lt_trans hlt h)
  apply lt_of_ofDigitChars_lt
  · rw [hearlier.1, hstamp.1]
  · exact hearlier.2
  · exact hstamp.2
  · rw [ofDigitChars_utcFilenameStamp, ofDigitChars_utcFilenameStamp]
    exact stampNumber_lt hlt h

/-- The last second of 9999. -/
theorem utcYmdhms_exact_9999 :
    253402300799 < YEAR_10000 ∧
      IsDate (utcYmdhms 253402300799).year (utcYmdhms 253402300799).month
        (utcYmdhms 253402300799).day :=
  ⟨by decide, (utcYmdhms_exact (by decide)).1.1⟩

end Upriv
