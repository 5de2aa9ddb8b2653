import WkcBrowser.Html.DateText

/-! The weeks of a year are its Thursdays, and `parseWeek` reads the number of one of them. -/

namespace WkcBrowser.Html

open Wtf Lib Calendar

/-- The days of the week of all dates of a year. -/
def weekdaysInYear (year : Int) : List Int :=
  (List.range 12).flatMap fun month : Nat =>
    (List.range (maxDayOfMonth year month).toNat).map fun day : Nat => dayOfWeek year month (day + 1)

def thursdaysInYear (year : Int) : Nat := (weekdaysInYear year).count thursday

/-- The days of the week of a year that begins with a given one. -/
def weekdaysFrom (leap : Bool) (first : Int) : List Int :=
  (List.range 12).flatMap fun month =>
    (List.range (monthLength leap month).toNat).map fun day : Nat =>
      (first + (daysBeforeMonth leap month + day)) % 7

theorem weekdaysInYear_eq (year : Int) :
    weekdaysInYear year = weekdaysFrom (isLeap year) (dayOfWeek year 0 1) := by
  unfold weekdaysInYear weekdaysFrom
  refine List.flatMap_congr fun month member => ?_
  have month_lt := List.mem_range.mp member
  have low : (0 : Int) ≤ month := by omega
  have high : (month : Int) ≤ 11 := by omega
  rw [maxDayOfMonth_eq year month low high, Int.toNat_natCast]
  refine List.map_congr_left fun day _ => ?_
  rw [dayOfWeek_eq year month _ low high, dayOfWeek_eq year 0 1 (le_refl 0) (by decide)]
  unfold weekday dayNumber
  rw [Int.toNat_natCast]
  change _ = ((daysBeforeYear year + 0 + 1) % 7 + _) % 7
  omega

/-- Only the first day of the year and its length matter. -/
theorem count_thursday_weekdaysFrom (leap : Bool) (first : Int) (low : 0 ≤ first) (high : first ≤ 6) :
    ((weekdaysFrom leap first).count thursday : Int) =
      if first = thursday ∨ (first = wednesday ∧ leap = true) then 53 else 52 := by
  have all : ∀ leap : Bool, ∀ first ∈ List.range 7,
      ((weekdaysFrom leap first).count thursday : Int) =
        if (first : Int) = thursday ∨ ((first : Int) = wednesday ∧ leap = true) then 53 else 52 := by
    decide +kernel
  have one := all leap first.toNat (List.mem_range.mpr (by omega))
  rwa [Int.toNat_of_nonneg low] at one

theorem maxWeekNumberInYear_eq (d : ISODateTime) :
    d.maxWeekNumberInYear = thursdaysInYear d.year := by
  have first := dayOfWeek_eq d.year 0 1 (le_refl 0) (by decide)
  have bounds : 0 ≤ dayOfWeek d.year 0 1 ∧ dayOfWeek d.year 0 1 ≤ 6 := by
    rw [first]
    unfold weekday
    omega
  unfold ISODateTime.maxWeekNumberInYear thursdaysInYear
  dsimp only
  rw [weekdaysInYear_eq, count_thursday_weekdaysFrom _ _ bounds.1 bounds.2, isLeapYear_eq]

/-- The text of a week. -/
def weekText (year : Digits) (week : Pair) : Text :=
  year.text ++ [0x2d, 0x57] ++ week.text

theorem noDigit_of_here {src : Text} {index : Nat} {c : UChar} (here : Here src index [c])
    (other : isASCIIDigit c = false) : NoDigit src index := by
  intro d found
  rw [(here_char c).mp here] at found
  cases found
  exact other

theorem here_weekText {src : Text} {start : Nat} (year : Digits) (week : Pair) :
    Here src start (weekText year week) ↔ Here src start year.text ∧
      charIs src (start + year.length) '-' = true ∧
      charIs src (start + year.length + 1) 'W' = true ∧
      Here src (start + year.length + 2) week.text := by
  have marks : ∀ index, Here src index [0x2d, 0x57] ↔
      charIs src index '-' = true ∧ charIs src (index + 1) 'W' = true := by
    intro index
    rw [charIs_iff, charIs_iff]
    exact here_append [0x2d] [0x57]
  unfold weekText
  rw [here_append, here_append, marks, and_assoc, and_assoc, Digits.text_length]
  simp [Nat.add_assoc]

/-- `parseWeek` reads a year after the first one of the calendar and one of its weeks. -/
theorem parseWeek_iff {d d' : ISODateTime} {src : Text} {start end_ : Nat} :
    d.parseWeek src start = some (d', end_) ↔ ∃ (year : Digits) (week : Pair), 4 ≤ year.length ∧
      Here src start (weekText year week) ∧ gregorianStartYear < year.value ∧
      year.value ≤ intMax ∧ 1 ≤ week.value ∧ week.value ≤ thursdaysInYear year.value ∧
      d' = { d with year := year.value, week := week.value } ∧
      end_ = start + (weekText year week).length := by
  have long : ∀ (year : Digits) (week : Pair), (weekText year week).length = year.length + 4 := by
    intro year week
    simp [weekText, Pair.text]
  unfold ISODateTime.parseWeek
  constructor
  · intro parsed
    cases read : d.parseYear src start with
    | none =>
      rw [read] at parsed
      cases parsed
    | some result =>
      obtain ⟨d₁, index⟩ := result
      rw [read] at parsed
      obtain ⟨year, four, here, -, -, bound, rfl, rfl⟩ := parseYear_iff.mp read
      simp only [Option.ite_none_left_eq_some, Bool.not_eq_true', Bool.not_eq_false] at parsed
      obtain ⟨-, dash, w, parsed⟩ := parsed
      cases number : twoDigits src (start + year.length + 1 + 1) 1
          ({ d with year := year.value } : ISODateTime).maxWeekNumberInYear with
      | none =>
        rw [number] at parsed
        cases parsed
      | some value =>
        rw [number] at parsed
        obtain ⟨week, two, rfl, low, high⟩ := twoDigits_iff.mp number
        obtain ⟨late, parsed⟩ := Option.ite_none_left_eq_some.mp parsed
        cases parsed
        rw [maxWeekNumberInYear_eq] at high
        exact ⟨year, week, four, (here_weekText year week).mpr ⟨here, dash, w, two⟩,
          Int.not_le.mp late, bound, low, high, rfl, by rw [long]; omega⟩
  · rintro ⟨year, week, four, here, late, bound, low, high, rfl, rfl⟩
    obtain ⟨digits, dash, w, two⟩ := (here_weekText year week).mp here
    have stop : NoDigit src (start + year.length) :=
      noDigit_of_here ((charIs_iff _).mp dash) (by decide)
    have read : d.parseYear src start = some ({ d with year := year.value }, start + year.length) :=
      parseYear_iff.mpr ⟨year, four, digits, stop, le_of_lt late, bound, rfl, rfl⟩
    have inside := two.length_le (by simp [Pair.text])
    have pairLength : week.text.length = 2 := rfl
    have number : twoDigits src (start + year.length + 2) 1
        ({ d with year := year.value } : ISODateTime).maxWeekNumberInYear = some week.value :=
      twoDigits_iff.mpr ⟨week, two, rfl, low, by rw [maxWeekNumberInYear_eq]; exact high⟩
    rw [read]
    dsimp only
    rw [if_neg (by omega), dash, w, number]
    dsimp only
    rw [if_neg (by decide), if_neg (by decide), if_neg (Int.not_le.mpr late), long, Nat.add_assoc]

/-- `addDay` moves the day of the week on, a year has as many weeks as Thursdays, and after the first year
of the calendar `parseWeek` reads exactly these weeks. -/
theorem week_numbers :
    (∀ (d d' : ISODateTime) (n : Int), d.HasDate → gregorianStartYear ≤ d.year → -2 ^ 31 ≤ n →
      d.monthDay + n ≤ intMax → d.addDay n = some d' →
      dayOfWeek d'.year d'.month d'.monthDay =
        (dayOfWeek d.year d.month d.monthDay + n) % 7) ∧
    (∀ d : ISODateTime, d.maxWeekNumberInYear = thursdaysInYear d.year) ∧
    ∀ (d d' : ISODateTime) (src : Text) (start end_ : Nat),
      d.parseWeek src start = some (d', end_) ↔ ∃ (year : Digits) (week : Pair), 4 ≤ year.length ∧
        Here src start (weekText year week) ∧ gregorianStartYear < year.value ∧
        year.value ≤ intMax ∧ 1 ≤ week.value ∧ week.value ≤ thursdaysInYear year.value ∧
        d' = { d with year := year.value, week := week.value } ∧
        end_ = start + (weekText year week).length := by
  refine ⟨fun d d' n valid late low fits added => ?_, maxWeekNumberInYear_eq,
    fun d d' src start end_ => parseWeek_iff⟩
  have year_pos : 0 < d.year := lt_of_lt_of_le (by decide) late
  obtain ⟨valid', number⟩ := ISODateTime.addDay_number valid year_pos low fits added
  rw [dayOfWeek_eq _ _ _ valid.month_nonneg valid.month_le,
    dayOfWeek_eq _ _ _ valid'.month_nonneg valid'.month_le]
  unfold ISODateTime.number dateNumber at number
  unfold weekday
  rw [number]
  omega

def lastDayOf2009 : ISODateTime := { year := 2009, month := 11, monthDay := 31 }

theorem lastDayOf2009_hasDate : lastDayOf2009.HasDate :=
  ⟨by decide, by decide, by decide, ⟨by decide, by decide, by decide⟩⟩

/-- From a Thursday to a Friday. -/
theorem week_numbers_2009 : dayOfWeek 2010 0 1 = (dayOfWeek 2009 11 31 + 1) % 7 :=
  week_numbers.1 lastDayOf2009 { year := 2010, month := 0, monthDay := 1 } 1 lastDayOf2009_hasDate
    (by decide) (by decide) (by decide) (by decide)

/-- A sum beyond the largest `int` leaves the date, and the weeks of 1582 are not read. -/
theorem not_week_numbers :
    (¬∀ (d d' : ISODateTime) (n : Int), d.HasDate → gregorianStartYear ≤ d.year → -2 ^ 31 ≤ n →
      n ≤ intMax → d.addDay n = some d' →
      dayOfWeek d'.year d'.month d'.monthDay =
        (dayOfWeek d.year d.month d.monthDay + n) % 7) ∧
    ¬∀ (year : Digits) (week : Pair), 4 ≤ year.length → gregorianStartYear ≤ year.value →
      year.value ≤ intMax → 1 ≤ week.value → week.value ≤ thursdaysInYear year.value →
      ((({} : ISODateTime).parseWeek (weekText year week) 0).isSome = true) := by
  constructor
  · intro all
    have same := all lastDayOf2009 lastDayOf2009 intMax lastDayOf2009_hasDate
      (by decide) (by decide) (by decide)
    exact absurd (same (by decide)) (by decide)
  · intro all
    have read := all [1, 5, 8, 2] ⟨5, 2⟩ (by decide) (by decide) (by decide) (by decide)
      (by decide +kernel)
    exact absurd read (by decide)

end WkcBrowser.Html
