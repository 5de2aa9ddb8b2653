import WkcBrowser.Html.ISODateTime
import WkcBrowser.Lib.Calendar

/-! The dates of `ISODateTime` are those of the calendar: the day of the week is that of the number of the
day, and `addDay` adds to this number. -/

namespace WkcBrowser.Html

open Lib Calendar

theorem isLeapYear_eq (year : Int) : isLeapYear year = isLeap year := by
  unfold isLeapYear isLeap
  by_cases four : year % 4 = 0
  · by_cases century : year % 100 = 0
    · by_cases four_centuries : year % 400 = 0 <;> simp [four, century, four_centuries]
    · have not_400 : year % 400 ≠ 0 := by omega
      simp [four, century, not_400]
  · simp [four]

theorem maxDayOfMonth_eq (year month : Int) (low : 0 ≤ month) (high : month ≤ 11) :
    maxDayOfMonth year month = monthLength (isLeap year) month.toNat := by
  unfold maxDayOfMonth
  rw [isLeapYear_eq]
  interval_cases month <;> rfl

/-- The days of a year before a month, where it matters whether the year is a leap year. -/
theorem daysBeforeMonth_eq (leap : Bool) (month : Int) (low : 0 ≤ month) (high : month ≤ 11) :
    daysBeforeMonth leap month.toNat =
      if month ≤ 1 then 31 * month
      else (13 * (month + 2) / 5 + 28 * month - 7) + if leap then 1 else 0 := by
  interval_cases month <;> cases leap <;> rfl

/-- The days before a year, by centuries. -/
theorem daysBeforeYear_centuries (year : Int) :
    daysBeforeYear (year + 1) = 365 * year + 24 * (year / 100) + year % 100 / 4 + year / 100 / 4 := by
  unfold daysBeforeYear
  rw [Int.add_sub_cancel]
  omega

/-- Zeller's congruence. -/
theorem dayOfWeek_eq (year month day : Int) (low : 0 ≤ month) (high : month ≤ 11) :
    dayOfWeek year month day = weekday (dayNumber year month.toNat day) := by
  unfold dayOfWeek weekday dayNumber
  rw [daysBeforeMonth_eq _ month low high]
  dsimp only
  by_cases early : month ≤ 1
  · rw [if_pos early, if_pos (by omega)]
    dsimp only
    have shifted : 13 * (month + 2 + 12) / 5 = 36 + 3 * month := by omega
    have before := daysBeforeYear_centuries (year - 1)
    rw [Int.sub_add_cancel] at before
    rw [shifted, before]
    generalize (year - 1) % 100 / 4 = quarters
    omega
  · rw [if_neg early, if_neg (by omega)]
    dsimp only
    have before := daysBeforeYear_centuries year
    have length : yearLength (isLeap year) = 365 + if isLeap year = true then 1 else 0 := by
      cases isLeap year <;> rfl
    rw [daysBeforeYear_succ, length] at before
    generalize 13 * (month + 2) / 5 = shifted
    generalize daysBeforeYear year = days at before ⊢
    generalize (if isLeap year = true then (1 : Int) else 0) = leap at before ⊢
    generalize year % 100 / 4 = quarters at before ⊢
    omega

/-- A year, month and day that exist, in a year that an `int` holds. -/
structure ValidDate (year month day : Int) : Prop where
  year_nonneg : 0 ≤ year
  year_le : year ≤ intMax
  month_nonneg : 0 ≤ month
  present : Exists year month.toNat day

def dateNumber (year month day : Int) : Int := dayNumber year month.toNat day

variable {year month day : Int}

theorem ValidDate.month_le (valid : ValidDate year month day) : month ≤ 11 := by
  have month_lt := valid.present.month_lt
  omega

theorem ValidDate.day_le (valid : ValidDate year month day) : day ≤ maxDayOfMonth year month := by
  rw [maxDayOfMonth_eq year month valid.month_nonneg valid.month_le]
  exact valid.present.day_le

theorem monthLength_pos (leap : Bool) (month : Nat) :
    28 ≤ monthLength leap month ∧ monthLength leap month ≤ 31 := by
  unfold monthLength
  split_ifs <;> decide

theorem toInt32_eq {n : Int} (low : -2 ^ 31 ≤ n) (high : n < 2 ^ 31) : toInt32 n = n := by
  unfold toInt32
  rw [Int.bmod_def]
  split_ifs <;> omega

theorem addDays_number (days : Nat) {later : Int × Int × Int} (valid : ValidDate year month day)
    (added : ISODateTime.addDays days year month day = some later) :
    ValidDate later.1 later.2.1 later.2.2 ∧
      dateNumber later.1 later.2.1 later.2.2 = dateNumber year month day + days := by
  induction days generalizing year month day with
  | zero =>
    cases added
    exact ⟨valid, (Int.add_zero _).symm⟩
  | succ days ih =>
    have month_le := valid.month_le
    have month_nonneg := valid.month_nonneg
    have year_nonneg := valid.year_nonneg
    have year_le := valid.year_le
    have length := maxDayOfMonth_eq year month month_nonneg month_le
    unfold ISODateTime.addDays at added
    dsimp only at added
    by_cases last : day + 1 > maxDayOfMonth year month
    · rw [if_pos last] at added
      have end_ : day = monthLength (isLeap year) month.toNat := by
        have day_le := valid.day_le
        omega
      by_cases december : month + 1 ≥ 12
      · rw [if_pos december] at added
        by_cases overflow : toInt32 (year + 1) < 0
        · rw [if_pos overflow] at added
          cases added
        · rw [if_neg overflow] at added
          have fits : year + 1 ≤ intMax := by
            by_contra beyond
            have edge : year = intMax := by omega
            rw [edge] at overflow
            exact overflow (by decide)
          have same : toInt32 (year + 1) = year + 1 := by
            unfold intMax at fits
            exact toInt32_eq (by omega) (by omega)
          rw [same] at added
          have next : ValidDate (year + 1) 0 1 :=
            ⟨by omega, fits, le_refl 0, ⟨by decide, le_refl 1, by
              have long := (monthLength_pos (isLeap (year + 1)) 0).1
              exact le_trans (by decide) long⟩⟩
          obtain ⟨valid', number⟩ := ih next added
          have eleven : month.toNat = 11 := by omega
          have step : dateNumber (year + 1) 0 1 = dateNumber year month day + 1 := by
            unfold dateNumber
            rw [end_, eleven]
            exact dayNumber_year_succ year
          refine ⟨valid', ?_⟩
          rw [number, step]
          push_cast
          omega
      · rw [if_neg december] at added
        have next_month : (month + 1).toNat = month.toNat + 1 := by omega
        have next : ValidDate year (month + 1) 1 :=
          ⟨year_nonneg, year_le, by omega, ⟨by omega, le_refl 1, by
            have long := (monthLength_pos (isLeap year) (month + 1).toNat).1
            exact le_trans (by decide) long⟩⟩
        obtain ⟨valid', number⟩ := ih next added
        have step : dateNumber year (month + 1) 1 = dateNumber year month day + 1 := by
          unfold dateNumber
          rw [end_, next_month]
          exact dayNumber_month_succ year month.toNat
        refine ⟨valid', ?_⟩
        rw [number, step]
        push_cast
        omega
    · rw [if_neg last] at added
      have next : ValidDate year month (day + 1) :=
        ⟨year_nonneg, year_le, month_nonneg, ⟨valid.present.month_lt, by
          have day_pos := valid.present.day_pos
          omega, by omega⟩⟩
      obtain ⟨valid', number⟩ := ih next added
      have step : dateNumber year month (day + 1) = dateNumber year month day + 1 :=
        dayNumber_day_succ year month.toNat day
      refine ⟨valid', ?_⟩
      rw [number, step]
      push_cast
      omega

/-- The day before the first of a month. -/
theorem number_before_first (valid : ValidDate year month 1) (month_pos : 0 < month) :
    ValidDate year (month - 1) (maxDayOfMonth year (month - 1)) ∧
      dateNumber year (month - 1) (maxDayOfMonth year (month - 1)) =
        dateNumber year month 1 - 1 := by
  have month_le := valid.month_le
  have length := maxDayOfMonth_eq year (month - 1) (by omega) (by omega)
  have long := (monthLength_pos (isLeap year) (month - 1).toNat).1
  have previous : month.toNat = (month - 1).toNat + 1 := by omega
  rw [length]
  refine ⟨⟨valid.year_nonneg, valid.year_le, by omega, ⟨by omega, by omega, le_refl _⟩⟩, ?_⟩
  unfold dateNumber
  rw [previous, dayNumber_month_succ]
  omega

/-- The day before the first of a year. -/
theorem number_before_january (valid : ValidDate year 0 1) (year_pos : 0 < year) :
    ValidDate (year - 1) 11 (maxDayOfMonth (year - 1) 11) ∧
      dateNumber (year - 1) 11 (maxDayOfMonth (year - 1) 11) = dateNumber year 0 1 - 1 := by
  have length := maxDayOfMonth_eq (year - 1) 11 (by decide) (by decide)
  have long := (monthLength_pos (isLeap (year - 1)) 11).1
  have year_le := valid.year_le
  rw [length]
  refine ⟨⟨by omega, by omega, by decide, ⟨by decide, ?_, le_refl _⟩⟩, ?_⟩
  · exact le_trans (by decide) long
  · have next := dayNumber_year_succ (year - 1)
    rw [Int.sub_add_cancel] at next
    change dayNumber (year - 1) 11 (monthLength (isLeap (year - 1)) 11) = dayNumber year 0 1 - 1
    rw [next]
    omega

theorem subtractDays_number (days : Nat) {earlier : Int × Int × Int}
    (valid : ValidDate year month day) (year_pos : 0 < year)
    (subtracted : ISODateTime.subtractDays days year month day = some earlier) :
    ValidDate earlier.1 earlier.2.1 earlier.2.2 ∧
      dateNumber earlier.1 earlier.2.1 earlier.2.2 = dateNumber year month day - days := by
  induction days generalizing year month day with
  | zero =>
    cases subtracted
    exact ⟨valid, (Int.sub_zero _).symm⟩
  | succ days ih =>
    have day_pos := valid.present.day_pos
    have month_nonneg := valid.month_nonneg
    -- What the loop does first is to go to the day before.
    obtain ⟨year', month', day', valid', number, rest⟩ : ∃ year' month' day',
        ValidDate year' month' day' ∧
        dateNumber year' month' day' = dateNumber year month day - 1 ∧
        (if ISODateTime.isBeforeGregorianStart year' month' day' then none
          else ISODateTime.subtractDays days year' month' day') = some earlier := by
      unfold ISODateTime.subtractDays at subtracted
      dsimp only at subtracted
      by_cases first : day - 1 < 1
      · have one : day = 1 := by omega
        rw [if_pos first] at subtracted
        by_cases january : month - 1 < 0
        · rw [if_pos january] at subtracted
          have zero : month = 0 := by omega
          rw [zero, one] at valid ⊢
          obtain ⟨before, number⟩ := number_before_january valid year_pos
          exact ⟨_, _, _, before, number, subtracted⟩
        · rw [if_neg january] at subtracted
          rw [one] at valid ⊢
          obtain ⟨before, number⟩ := number_before_first valid (by omega)
          exact ⟨_, _, _, before, number, subtracted⟩
      · rw [if_neg first] at subtracted
        have day_le := valid.present.day_le
        refine ⟨year, month, day - 1, ⟨valid.year_nonneg, valid.year_le, month_nonneg,
          ⟨valid.present.month_lt, by omega, by omega⟩⟩, ?_, subtracted⟩
        unfold dateNumber dayNumber
        omega
    by_cases early : ISODateTime.isBeforeGregorianStart year' month' day' = true
    · rw [if_pos early] at rest
      cases rest
    · rw [if_neg early] at rest
      have year_pos' : 0 < year' := by
        by_contra not_pos
        refine early ?_
        unfold ISODateTime.isBeforeGregorianStart gregorianStartYear
        have small : year' < 1582 := by omega
        simp [small]
      obtain ⟨valid'', number'⟩ := ih valid' year_pos' rest
      refine ⟨valid'', ?_⟩
      rw [number', number]
      push_cast
      omega

namespace ISODateTime

def HasDate (d : ISODateTime) : Prop := ValidDate d.year d.month d.monthDay

def number (d : ISODateTime) : Int := dateNumber d.year d.month d.monthDay

variable {d d' : ISODateTime} {n : Int}

/-- `addDay` adds to the number of the day, as long as its first sum is an `int`. -/
theorem addDay_number (valid : d.HasDate) (year_pos : 0 < d.year) (low : -2 ^ 31 ≤ n)
    (fits : d.monthDay + n ≤ intMax) (added : d.addDay n = some d') :
    d'.HasDate ∧ d'.number = d.number + n := by
  have day_pos := valid.present.day_pos
  have day_le := valid.day_le
  have same : toInt32 (d.monthDay + n) = d.monthDay + n := by
    unfold intMax at fits
    exact toInt32_eq (by omega) (by omega)
  unfold addDay at added
  dsimp only at added
  rw [same] at added
  by_cases after_ : d.monthDay + n > maxDayOfMonth d.year d.month
  · rw [if_pos after_] at added
    obtain ⟨later, forward, rfl⟩ := Option.map_eq_some_iff.mp added
    obtain ⟨valid', number⟩ := addDays_number _ valid forward
    refine ⟨valid', ?_⟩
    have count : (n.toNat : Int) = n := Int.toNat_of_nonneg (by omega)
    rw [count] at number
    exact number
  · rw [if_neg after_] at added
    by_cases before : d.monthDay + n < 1
    · rw [if_pos before] at added
      obtain ⟨earlier, back, rfl⟩ := Option.map_eq_some_iff.mp added
      obtain ⟨valid', number⟩ := subtractDays_number _ valid year_pos back
      refine ⟨valid', ?_⟩
      have count : ((-n).toNat : Int) = -n := Int.toNat_of_nonneg (by omega)
      rw [count, Int.sub_neg] at number
      exact number
    · rw [if_neg before] at added
      cases added
      have length := maxDayOfMonth_eq d.year d.month valid.month_nonneg valid.month_le
      refine ⟨⟨valid.year_nonneg, valid.year_le, valid.month_nonneg,
        ⟨valid.present.month_lt, by change 1 ≤ d.monthDay + n; omega, ?_⟩⟩, ?_⟩
      · change d.monthDay + n ≤ monthLength (isLeap d.year) d.month.toNat
        omega
      · change dateNumber d.year d.month (d.monthDay + n) = dateNumber d.year d.month d.monthDay + n
        unfold dateNumber dayNumber
        omega

end ISODateTime

end WkcBrowser.Html
