import Mathlib.Tactic.Common
import Mathlib.Tactic.IntervalCases

/-!
# The Gregorian calendar

Valid dates, and their number counted from 1 January of year 0 in the proleptic
calendar.  Dates and day numbers are in the same order.
-/

namespace Upriv

def IsLeap (year : ℕ) : Prop := year % 4 = 0 ∧ (year % 100 ≠ 0 ∨ year % 400 = 0)

instance (year : ℕ) : Decidable (IsLeap year) := by
  unfold IsLeap
  infer_instance

def yearDays (year : ℕ) : ℕ := if IsLeap year then 366 else 365

def monthDays (year : ℕ) : ℕ → ℕ
  | 2 => if IsLeap year then 29 else 28
  | 4 | 6 | 9 | 11 => 30
  | _ => 31

/-- A day of a month of a year. -/
structure IsDate (year month day : ℕ) : Prop where
  month_pos : 1 ≤ month
  month_le : month ≤ 12
  day_pos : 1 ≤ day
  day_le : day ≤ monthDays year month

def daysBeforeYear : ℕ → ℕ
  | 0 => 0
  | year + 1 => daysBeforeYear year + yearDays year

/-- The days of a year before the given month, for months from 1. -/
def daysBeforeMonth (year : ℕ) : ℕ → ℕ
  | 0 => 0
  | 1 => 0
  | month + 2 => daysBeforeMonth year (month + 1) + monthDays year (month + 1)

/-- Days since 1 January of year 0. -/
def dayNumber (year month day : ℕ) : ℕ :=
  daysBeforeYear year + daysBeforeMonth year month + (day - 1)

/-! ## Years -/

/-- Every fourth year is a leap year, but three centuries of four are not. -/
theorem daysBeforeYear_add (year : ℕ) :
    daysBeforeYear year + (year + 99) / 100 =
      365 * year + (year + 3) / 4 + (year + 399) / 400 := by
  induction year with
  | zero => rfl
  | succ year ih =>
    rw [daysBeforeYear, yearDays]
    by_cases hleap : IsLeap year
    · rw [if_pos hleap]
      unfold IsLeap at hleap
      omega
    · rw [if_neg hleap]
      unfold IsLeap at hleap
      omega

theorem daysBeforeYear_mono {year later : ℕ} (h : year ≤ later) :
    daysBeforeYear year ≤ daysBeforeYear later := by
  induction later, h using Nat.le_induction with
  | base => exact le_refl _
  | succ later _ ih =>
    rw [daysBeforeYear]
    omega

/-! ## Months -/

theorem daysBeforeMonth_succ (year : ℕ) {month : ℕ} (h : 1 ≤ month) :
    daysBeforeMonth year (month + 1) = daysBeforeMonth year month + monthDays year month := by
  obtain ⟨month, rfl⟩ := Nat.exists_eq_add_of_le' h
  rw [daysBeforeMonth]

theorem daysBeforeMonth_mono (year : ℕ) {month later : ℕ} (hpos : 1 ≤ month)
    (h : month ≤ later) : daysBeforeMonth year month ≤ daysBeforeMonth year later := by
  induction later, h using Nat.le_induction with
  | base => exact le_refl _
  | succ later hle ih =>
    rw [daysBeforeMonth_succ year (le_trans hpos hle)]
    omega

/-- The twelve months make the year. -/
theorem daysBeforeMonth_thirteen (year : ℕ) : daysBeforeMonth year 13 = yearDays year := by
  simp only [daysBeforeMonth, monthDays, yearDays]
  split <;> rfl

/-! ## Dates in order -/

theorem IsDate.before_next_month {year month day : ℕ} (h : IsDate year month day) :
    daysBeforeMonth year month + (day - 1) < daysBeforeMonth year (month + 1) := by
  rw [daysBeforeMonth_succ year h.month_pos]
  have hpos := h.day_pos
  have hle := h.day_le
  omega

theorem IsDate.before_next_year {year month day : ℕ} (h : IsDate year month day) :
    dayNumber year month day < daysBeforeYear (year + 1) := by
  have hmonth : daysBeforeMonth year (month + 1) ≤ yearDays year := by
    rw [← daysBeforeMonth_thirteen]
    exact daysBeforeMonth_mono year (Nat.le_add_left 1 month) (Nat.succ_le_succ h.month_le)
  have hnext := h.before_next_month
  rw [dayNumber, daysBeforeYear]
  omega

/-- A smaller day number is an earlier date: an earlier year, or an earlier month of one
year, or an earlier day of one month. -/
theorem IsDate.earlier_of_dayNumber_lt {year month day year' month' day' : ℕ}
    (h' : IsDate year' month' day')
    (hlt : dayNumber year month day < dayNumber year' month' day') :
    year < year' ∨ year = year' ∧ (month < month' ∨ month = month' ∧ day < day') := by
  rcases lt_trichotomy year year' with hyear | rfl | hyear
  · exact Or.inl hyear
  · refine Or.inr ⟨rfl, ?_⟩
    unfold dayNumber at hlt
    rcases lt_trichotomy month month' with hmonth | rfl | hmonth
    · exact Or.inl hmonth
    · exact Or.inr ⟨rfl, by omega⟩
    · have hnext := h'.before_next_month
      have hmono := daysBeforeMonth_mono year (Nat.le_add_left 1 month') hmonth
      omega
  · have hnext := h'.before_next_year
    have hmono : daysBeforeYear (year' + 1) ≤ daysBeforeYear year := daysBeforeYear_mono hyear
    have hle : daysBeforeYear year ≤ dayNumber year month day := by
      rw [dayNumber, Nat.add_assoc]
      exact Nat.le_add_right _ _
    omega

end Upriv
