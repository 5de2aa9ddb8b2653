import Mathlib.Algebra.Order.Ring.Int
import Mathlib.Tactic.IntervalCases

/-! The Gregorian calendar, continued to all years. The days are numbered from the first day of year 1,
which is a Monday; months are counted from 0. -/

namespace WkcBrowser.Lib.Calendar

def isLeap (year : Int) : Bool :=
  year % 4 = 0 && (year % 100 ≠ 0 || year % 400 = 0)

def monthLength (leap : Bool) (month : Nat) : Int :=
  if month = 1 then if leap then 29 else 28
  else if month = 3 ∨ month = 5 ∨ month = 8 ∨ month = 10 then 30
  else 31

def yearLength (leap : Bool) : Int := if leap then 366 else 365

def daysBeforeYear (year : Int) : Int :=
  365 * (year - 1) + (year - 1) / 4 - (year - 1) / 100 + (year - 1) / 400

def daysBeforeMonth (leap : Bool) : Nat → Int
  | 0 => 0
  | month + 1 => daysBeforeMonth leap month + monthLength leap month

def dayNumber (year : Int) (month : Nat) (day : Int) : Int :=
  daysBeforeYear year + daysBeforeMonth (isLeap year) month + day

/-- The day of the week, from Sunday. -/
def weekday (number : Int) : Int := number % 7

/-- The month and the day exist. -/
structure Exists (year : Int) (month : Nat) (day : Int) : Prop where
  month_lt : month < 12
  day_pos : 1 ≤ day
  day_le : day ≤ monthLength (isLeap year) month

theorem isLeap_iff (year : Int) :
    isLeap year = true ↔ year % 4 = 0 ∧ (year % 100 ≠ 0 ∨ year % 400 = 0) := by
  simp [isLeap]

theorem daysBeforeMonth_twelve (leap : Bool) : daysBeforeMonth leap 12 = yearLength leap := by
  cases leap <;> rfl

theorem daysBeforeYear_succ (year : Int) :
    daysBeforeYear (year + 1) = daysBeforeYear year + yearLength (isLeap year) := by
  unfold daysBeforeYear yearLength
  by_cases leap : isLeap year = true
  · rw [if_pos leap]
    rw [isLeap_iff] at leap
    omega
  · rw [if_neg leap]
    rw [isLeap_iff] at leap
    omega

theorem dayNumber_day_succ (year : Int) (month : Nat) (day : Int) :
    dayNumber year month (day + 1) = dayNumber year month day + 1 := by
  unfold dayNumber
  omega

theorem dayNumber_month_succ (year : Int) (month : Nat) :
    dayNumber year (month + 1) 1 =
      dayNumber year month (monthLength (isLeap year) month) + 1 := by
  unfold dayNumber
  rw [daysBeforeMonth]
  omega

theorem dayNumber_year_succ (year : Int) :
    dayNumber (year + 1) 0 1 = dayNumber year 11 (monthLength (isLeap year) 11) + 1 := by
  have whole : daysBeforeMonth (isLeap year) 11 + monthLength (isLeap year) 11 =
      yearLength (isLeap year) := daysBeforeMonth_twelve _
  unfold dayNumber
  rw [daysBeforeYear_succ, daysBeforeMonth]
  omega

end WkcBrowser.Lib.Calendar
