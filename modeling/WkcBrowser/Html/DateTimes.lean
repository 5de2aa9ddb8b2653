import WkcBrowser.Html.Weeks

/-! The texts that `parseDateTime` reads, and what becomes of the zone. -/

namespace WkcBrowser.Html

open Wtf Lib Calendar

inductive Seconds where
  | absent
  | whole (second : Pair)
  | fraction (second : Pair) (digits : Digits)

namespace Seconds

def text : Seconds → Text
  | absent => []
  | whole second => [0x3a] ++ second.text
  | fraction second digits => [0x3a] ++ second.text ++ ([0x2e] ++ digits.text)

def second : Seconds → Int
  | absent => 0
  | whole second | fraction second _ => second.value

/-- The digits after the third one do not count. -/
def millisecond : Seconds → Int
  | absent | whole _ => 0
  | fraction _ digits =>
    if digits.length = 1 then digits.value * 100
    else if digits.length = 2 then digits.value * 10
    else Digits.value (digits.take 3)

structure Fits (seconds : Seconds) : Prop where
  second_le : seconds.second ≤ 59
  digits : ∀ second digits, seconds = fraction second digits → digits ≠ []

end Seconds

inductive Zone where
  | utc
  | offset (minus : Bool) (hour minute : Pair)

namespace Zone

def text : Zone → Text
  | utc => [0x5a]
  | offset minus hour minute =>
    [if minus then 0x2d else 0x2b] ++ hour.text ++ ([0x3a] ++ minute.text)

def minutes : Zone → Int
  | utc => 0
  | offset minus hour minute =>
    if minus then -(hour.value * 60 + minute.value) else hour.value * 60 + minute.value

theorem minutes_minus (hour minute : Pair) :
    (offset true hour minute).minutes = -hour.value * 60 + -minute.value := by
  change -(hour.value * 60 + minute.value) = _
  ring

structure Fits (zone : Zone) : Prop where
  hour_le : ∀ minus hour minute, zone = offset minus hour minute → hour.value ≤ 23
  minute_le : ∀ minus hour minute, zone = offset minus hour minute → minute.value ≤ 59

end Zone

/-- A date and time with a zone, as it is written. -/
structure Written where
  year : Digits
  month : Pair
  day : Pair
  hour : Pair
  minute : Pair
  seconds : Seconds
  zone : Zone

namespace Written

def dateText (w : Written) : Text :=
  w.year.text ++ ([0x2d] ++ w.month.text ++ ([0x2d] ++ w.day.text))

def timeText (w : Written) : Text := w.hour.text ++ ([0x3a] ++ w.minute.text) ++ w.seconds.text

def text (w : Written) : Text := w.dateText ++ ([0x54] ++ w.timeText ++ w.zone.text)

/-- The written date exists and is in the calendar. -/
structure DateFits (w : Written) : Prop where
  digits : 4 ≤ w.year.length
  year_le : w.year.value ≤ intMax
  present : Exists w.year.value (w.month.value - 1).toNat w.day.value
  month_pos : 1 ≤ w.month.value
  late : ISODateTime.isBeforeGregorianStart w.year.value (w.month.value - 1) w.day.value = false

structure TimeFits (w : Written) : Prop where
  hour_le : w.hour.value ≤ 23
  minute_le : w.minute.value ≤ 59
  seconds : w.seconds.Fits

structure Fits (w : Written) : Prop where
  date : w.DateFits
  time : w.TimeFits
  zone : w.zone.Fits

/-- The minutes from the day before the first of year 1, in UTC. -/
def instant (w : Written) : Int :=
  dateNumber w.year.value (w.month.value - 1) w.day.value * 1440 + w.hour.value * 60 +
    w.minute.value - w.zone.minutes

/-- The written date and time, without the zone. -/
def localTime (w : Written) (d : ISODateTime) : ISODateTime :=
  { d with
    year := w.year.value, month := w.month.value - 1, monthDay := w.day.value
    hour := w.hour.value, minute := w.minute.value
    second := w.seconds.second, millisecond := w.seconds.millisecond }

end Written

namespace ISODateTime

def instant (d : ISODateTime) : Int := d.number * 1440 + d.hour * 60 + d.minute

structure InRange (d : ISODateTime) : Prop where
  date : d.HasDate
  hour : 0 ≤ d.hour ∧ d.hour ≤ 23
  minute : 0 ≤ d.minute ∧ d.minute ≤ 59
  second : 0 ≤ d.second ∧ d.second ≤ 59
  millisecond : 0 ≤ d.millisecond ∧ d.millisecond ≤ 999

end ISODateTime

variable {src : Text} {d d' : ISODateTime} {start end_ index : Nat} {w : Written}

theorem parseMonth_iff :
    d.parseMonth src start = some (d', end_) ↔ ∃ (year : Digits) (month : Pair), 4 ≤ year.length ∧
      Here src start year.text ∧ charIs src (start + year.length) '-' = true ∧
      Here src (start + year.length + 1) month.text ∧
      gregorianStartYear ≤ year.value ∧ year.value ≤ intMax ∧
      1 ≤ month.value ∧ month.value ≤ 12 ∧
      ¬(year.value = gregorianStartYear ∧ month.value - 1 < gregorianStartMonth) ∧
      d' = { d with year := year.value, month := month.value - 1 } ∧
      end_ = start + year.length + 3 := by
  unfold ISODateTime.parseMonth
  constructor
  · intro parsed
    cases read : d.parseYear src start with
    | none =>
      rw [read] at parsed
      cases parsed
    | some result =>
      obtain ⟨d₁, index⟩ := result
      rw [read] at parsed
      obtain ⟨year, four, here, -, late, bound, rfl, rfl⟩ := parseYear_iff.mp read
      simp only [Option.ite_none_left_eq_some, Bool.not_eq_true', Bool.not_eq_false] at parsed
      obtain ⟨dash, parsed⟩ := parsed
      cases number : twoDigits src (start + year.length + 1) 1 12 with
      | none =>
        rw [number] at parsed
        cases parsed
      | some value =>
        rw [number] at parsed
        obtain ⟨month, two, rfl, low, high⟩ := twoDigits_iff.mp number
        obtain ⟨after_, parsed⟩ := Option.ite_none_left_eq_some.mp parsed
        cases parsed
        exact ⟨year, month, four, here, dash, two, late, bound, low, high, after_, rfl, rfl⟩
  · rintro ⟨year, month, four, here, dash, two, late, bound, low, high, after_, rfl, rfl⟩
    have stop : NoDigit src (start + year.length) :=
      noDigit_of_here ((charIs_iff _).mp dash) (by decide)
    have read : d.parseYear src start = some ({ d with year := year.value }, start + year.length) :=
      parseYear_iff.mpr ⟨year, four, here, stop, late, bound, rfl, rfl⟩
    have number : twoDigits src (start + year.length + 1) 1 12 = some month.value :=
      twoDigits_iff.mpr ⟨month, two, rfl, low, high⟩
    rw [read]
    dsimp only
    rw [dash, number]
    dsimp only
    rw [if_neg (by decide), if_neg after_]

theorem isBeforeGregorianStart_iff (year month day : Int) :
    ISODateTime.isBeforeGregorianStart year month day = false ↔ gregorianStartYear ≤ year ∧
      ¬(year = gregorianStartYear ∧ month < gregorianStartMonth) ∧
      ¬(year = gregorianStartYear ∧ month = gregorianStartMonth ∧ day < gregorianStartDay) := by
  unfold ISODateTime.isBeforeGregorianStart
  simp only [Bool.or_eq_false_iff, Bool.and_eq_false_iff, decide_eq_false_iff_not, not_and_or]
  omega

theorem Pair.length_text (pair : Pair) : pair.text.length = 2 := rfl

theorem parseDate_iff :
    d.parseDate src start = some (d', end_) ↔ ∃ (year : Digits) (month day : Pair),
      4 ≤ year.length ∧ Here src start year.text ∧
      charIs src (start + year.length) '-' = true ∧
      Here src (start + year.length + 1) month.text ∧
      charIs src (start + year.length + 3) '-' = true ∧
      Here src (start + year.length + 4) day.text ∧
      year.value ≤ intMax ∧ 1 ≤ month.value ∧ month.value ≤ 12 ∧ 1 ≤ day.value ∧
      day.value ≤ maxDayOfMonth year.value (month.value - 1) ∧
      ISODateTime.isBeforeGregorianStart year.value (month.value - 1) day.value = false ∧
      d' = { d with year := year.value, month := month.value - 1, monthDay := day.value } ∧
      end_ = start + year.length + 6 := by
  unfold ISODateTime.parseDate
  simp only [isBeforeGregorianStart_iff]
  constructor
  · intro parsed
    cases read : d.parseMonth src start with
    | none =>
      rw [read] at parsed
      cases parsed
    | some result =>
      obtain ⟨d₁, index⟩ := result
      rw [read] at parsed
      obtain ⟨year, month, four, here, dash, two, late, bound, low, high, after_, rfl, rfl⟩ :=
        parseMonth_iff.mp read
      simp only [Option.ite_none_left_eq_some, Bool.not_eq_true', Bool.not_eq_false] at parsed
      obtain ⟨-, dash', parsed⟩ := parsed
      cases number : twoDigits src (start + year.length + 3 + 1) 1
          (maxDayOfMonth year.value (month.value - 1)) with
      | none =>
        rw [number] at parsed
        cases parsed
      | some value =>
        rw [number] at parsed
        obtain ⟨day, two', rfl, low', high'⟩ := twoDigits_iff.mp number
        obtain ⟨after', parsed⟩ := Option.ite_none_left_eq_some.mp parsed
        cases parsed
        exact ⟨year, month, day, four, here, dash, two, dash', two', bound, low, high, low', high',
          ⟨late, after_, after'⟩, rfl, rfl⟩
  · rintro ⟨year, month, day, four, here, dash, two, dash', two', bound, low, high, low', high',
      ⟨late, after_, after'⟩, rfl, rfl⟩
    have read := (parseMonth_iff (d := d)).mpr
      ⟨year, month, four, here, dash, two, late, bound, low, high, after_, rfl, rfl⟩
    have number : twoDigits src (start + year.length + 3 + 1) 1
        (maxDayOfMonth year.value (month.value - 1)) = some day.value :=
      twoDigits_iff.mpr ⟨day, two', rfl, low', high'⟩
    have inside := two'.length_le (by simp [Pair.text])
    rw [Pair.length_text] at inside
    rw [read]
    dsimp only
    rw [dash', number]
    dsimp only
    rw [if_neg (by omega), if_neg (by decide), if_neg after']

/-- A zone begins with one of these. -/
def ZoneAt (src : Text) (index : Nat) : Prop :=
  charIs src index 'Z' = true ∨ charIs src index '+' = true ∨ charIs src index '-' = true

theorem ZoneAt.noDigit (zone : ZoneAt src index) : NoDigit src index := by
  obtain z | plus | minus := zone
  · exact noDigit_of_here ((charIs_iff _).mp z) (by decide)
  · exact noDigit_of_here ((charIs_iff _).mp plus) (by decide)
  · exact noDigit_of_here ((charIs_iff _).mp minus) (by decide)

theorem charIs_other {c c' : Char} (here : charIs src index c = true)
    (different : UInt16.ofNat c.toNat ≠ UInt16.ofNat c'.toNat) : charIs src index c' = false := by
  unfold charIs at *
  rw [of_decide_eq_true here]
  simpa using different

theorem ZoneAt.other (zone : ZoneAt src index) {c : Char} (notZ : UInt16.ofNat c.toNat ≠ 0x5a)
    (notPlus : UInt16.ofNat c.toNat ≠ 0x2b) (notMinus : UInt16.ofNat c.toNat ≠ 0x2d) :
    charIs src index c = false := by
  obtain z | plus | minus := zone
  · exact charIs_other z notZ.symm
  · exact charIs_other plus notPlus.symm
  · exact charIs_other minus notMinus.symm

theorem ZoneAt.lt_length (zone : ZoneAt src index) : index < src.length := by
  have some_ : ∃ c, src[index]? = some c := by
    unfold ZoneAt charIs at zone
    obtain z | plus | minus := zone
    · exact ⟨_, of_decide_eq_true z⟩
    · exact ⟨_, of_decide_eq_true plus⟩
    · exact ⟨_, of_decide_eq_true minus⟩
  obtain ⟨c, found⟩ := some_
  exact (List.getElem?_eq_some_iff.mp found).1

/-- The first digits of a fraction are its milliseconds. -/
theorem parseFraction_eq {digits : Digits} (nonempty : digits ≠ []) (dot : charIs src index '.' = true)
    (here : Here src (index + 1) digits.text) (stop : NoDigit src (index + 1 + digits.length)) :
    ISODateTime.parseFraction src index =
      ((Seconds.fraction ⟨0, 0⟩ digits).millisecond, index + 1 + digits.length) := by
  have count := countDigits_eq here stop
  have pos := List.length_pos_of_ne_nil nonempty
  have taken : ∀ length, 0 < length → length ≤ 3 → length ≤ digits.length →
      toInt src (index + 1) length = some (Digits.value (digits.take length)) := by
    intro length length_pos small enough
    refine toInt_iff.mpr ⟨length_pos, digits.take length, List.length_take_of_le enough, ?_, rfl, ?_⟩
    · have split : digits.text = Digits.text (digits.take length) ++
          Digits.text (digits.drop length) := by
        unfold Digits.text
        rw [← List.map_append, List.take_append_drop]
      rw [split] at here
      exact ((here_append _ _).mp here).1
    · have bound := Digits.value_lt (digits.take length)
      rw [List.length_take_of_le enough] at bound
      have power : (10 : Int) ^ length ≤ 10 ^ 3 := pow_le_pow_right₀ (by decide) small
      unfold intMax
      omega
  unfold ISODateTime.parseFraction Seconds.millisecond
  rw [if_pos dot, count, if_pos pos]
  dsimp only
  by_cases one : digits.length = 1
  · rw [if_pos one, if_pos one, taken 1 (by decide) (by decide) (by omega), ← one, List.take_length]
    rfl
  · rw [if_neg one, if_neg one]
    by_cases two : digits.length = 2
    · rw [if_pos two, if_pos two, taken 2 (by decide) (by decide) (by omega), ← two, List.take_length]
      rfl
    · rw [if_neg two, if_neg two, taken 3 (by decide) (by decide) (by omega)]
      rfl

theorem here_nil (src : Text) (index : Nat) : Here src index [] := List.nil_prefix

theorem Seconds.absent_fits : Seconds.absent.Fits := ⟨by decide, nofun⟩

theorem Seconds.whole_fits {second : Pair} (small : second.value ≤ 59) : (whole second).Fits :=
  ⟨small, nofun⟩

/-- The seconds that are read. -/
theorem seconds_of_parseSeconds {second millisecond : Int} (zone : ZoneAt src end_)
    (parsed : ISODateTime.parseSeconds src index = (second, millisecond, end_)) :
    ∃ seconds : Seconds, seconds.Fits ∧ Here src index seconds.text ∧ second = seconds.second ∧
      millisecond = seconds.millisecond ∧ end_ = index + seconds.text.length := by
  have absent : (0, 0, index) = (second, millisecond, end_) → ∃ seconds : Seconds, seconds.Fits ∧
      Here src index seconds.text ∧ second = seconds.second ∧
      millisecond = seconds.millisecond ∧ end_ = index + seconds.text.length := by
    intro same
    cases same
    exact ⟨.absent, Seconds.absent_fits, here_nil src _, rfl, rfl, rfl⟩
  unfold ISODateTime.parseSeconds at parsed
  by_cases colon : index + 2 < src.length ∧ charIs src index ':' = true
  · rw [if_pos colon] at parsed
    have mark : Here src index [0x3a] := (charIs_iff _).mp colon.2
    cases read : toInt src (index + 1) 2 with
    | none =>
      rw [read] at parsed
      exact absent parsed
    | some value =>
      rw [read] at parsed
      obtain ⟨pair, two, rfl⟩ := toInt_two_iff.mp read
      dsimp only at parsed
      by_cases small : pair.value ≥ 0 ∧ pair.value ≤ 59
      · rw [if_pos small] at parsed
        have here : Here src index ([0x3a] ++ pair.text) := (here_append _ _).mpr ⟨mark, two⟩
        by_cases dot : charIs src (index + 3) '.' = true ∧ countDigits src (index + 3 + 1) > 0
        · obtain ⟨digits, long, digitsHere, stop⟩ := countDigits_here src (index + 3 + 1)
          have nonempty : digits ≠ [] := List.ne_nil_of_length_pos (long ▸ dot.2)
          rw [parseFraction_eq nonempty dot.1 digitsHere stop] at parsed
          cases parsed
          have dotHere : Here src (index + 3) [0x2e] := (charIs_iff _).mp dot.1
          refine ⟨.fraction pair digits, ⟨small.2, ?_⟩, ?_, rfl, rfl, ?_⟩
          · intro second' digits' same
            cases same
            exact nonempty
          · exact (here_append _ _).mpr ⟨here, (here_append _ _).mpr ⟨dotHere, digitsHere⟩⟩
          · simp [Seconds.text, Pair.length_text]
            omega
        · have plain : ISODateTime.parseFraction src (index + 3) = (0, index + 3) := by
            unfold ISODateTime.parseFraction
            by_cases mark' : charIs src (index + 3) '.' = true
            · rw [if_pos mark']
              exact if_neg fun pos => dot ⟨mark', pos⟩
            · exact if_neg mark'
          rw [plain] at parsed
          cases parsed
          exact ⟨.whole pair, Seconds.whole_fits small.2, here, rfl, rfl, rfl⟩
      · rw [if_neg small] at parsed
        cases parsed
        have none_ := zone.other (c := ':') (by decide) (by decide) (by decide)
        rw [colon.2] at none_
        cases none_
  · rw [if_neg colon] at parsed
    exact absent parsed

/-- The seconds are read as they are written when a zone follows them. -/
theorem parseSeconds_of_here {seconds : Seconds} (fits : seconds.Fits)
    (here : Here src index seconds.text) (zone : ZoneAt src (index + seconds.text.length)) :
    ISODateTime.parseSeconds src index =
      (seconds.second, seconds.millisecond, index + seconds.text.length) := by
  have inside := zone.lt_length
  unfold ISODateTime.parseSeconds
  cases seconds with
  | absent =>
    have none_ := zone.other (c := ':') (by decide) (by decide) (by decide)
    change charIs src index ':' = false at none_
    rw [if_neg (by simp [none_])]
    rfl
  | whole second =>
    obtain ⟨mark, two⟩ := (here_append _ _).mp here
    have colon : charIs src index ':' = true := (charIs_iff _).mpr mark
    have read : toInt src (index + 1) 2 = some second.value := toInt_two_iff.mpr ⟨second, two, rfl⟩
    have long : (Seconds.whole second).text.length = 3 := rfl
    have none_ := zone.other (c := '.') (by decide) (by decide) (by decide)
    rw [long] at inside none_ ⊢
    have plain : ISODateTime.parseFraction src (index + 3) = (0, index + 3) := if_neg (by simp [none_])
    have small : second.value ≥ 0 ∧ second.value ≤ 59 := ⟨second.value_bounds.1, fits.second_le⟩
    rw [if_pos ⟨by omega, colon⟩, read]
    dsimp only
    rw [if_pos small, plain]
    rfl
  | fraction second digits =>
    obtain ⟨first, rest⟩ := (here_append _ _).mp here
    obtain ⟨mark, two⟩ := (here_append _ _).mp first
    obtain ⟨dot, digitsHere⟩ := (here_append _ _).mp rest
    have colon : charIs src index ':' = true := (charIs_iff _).mpr mark
    have read : toInt src (index + 1) 2 = some second.value := toInt_two_iff.mpr ⟨second, two, rfl⟩
    have long : (Seconds.fraction second digits).text.length = 4 + digits.length := by
      simp [Seconds.text, Pair.length_text]
      omega
    rw [long] at inside zone ⊢
    have small : second.value ≥ 0 ∧ second.value ≤ 59 := ⟨second.value_bounds.1, fits.second_le⟩
    have stop : NoDigit src (index + 3 + 1 + digits.length) := by
      have none_ := zone.noDigit
      rwa [← Nat.add_assoc] at none_
    have fraction : ISODateTime.parseFraction src (index + 3) =
        ((Seconds.fraction ⟨0, 0⟩ digits).millisecond, index + 3 + 1 + digits.length) :=
      parseFraction_eq (fits.digits second digits rfl) ((charIs_iff _).mpr dot) digitsHere stop
    rw [if_pos ⟨by omega, colon⟩, read]
    dsimp only
    rw [if_pos small]
    have total : index + 3 + 1 + digits.length = index + (4 + digits.length) := by omega
    rw [fraction, total]
    rfl

/-- A time is read when a zone follows it. -/
theorem parseTime_iff (zone : ZoneAt src end_) :
    d.parseTime src start = some (d', end_) ↔ ∃ (hour minute : Pair) (seconds : Seconds),
      Here src start hour.text ∧ charIs src (start + 2) ':' = true ∧
      Here src (start + 3) minute.text ∧ Here src (start + 5) seconds.text ∧
      hour.value ≤ 23 ∧ minute.value ≤ 59 ∧ seconds.Fits ∧
      d' = { d with hour := hour.value, minute := minute.value, second := seconds.second,
                    millisecond := seconds.millisecond } ∧
      end_ = start + 5 + seconds.text.length := by
  unfold ISODateTime.parseTime
  constructor
  · intro parsed
    cases first : twoDigits src start 0 23 with
    | none =>
      rw [first] at parsed
      cases parsed
    | some hour =>
      rw [first] at parsed
      obtain ⟨colon, parsed⟩ := Option.ite_none_left_eq_some.mp parsed
      cases second : twoDigits src (start + 3) 0 59 with
      | none =>
        rw [second] at parsed
        cases parsed
      | some minute =>
        rw [second] at parsed
        obtain ⟨h, here, rfl, -, hour_le⟩ := twoDigits_iff.mp first
        obtain ⟨m, here', rfl, -, minute_le⟩ := twoDigits_iff.mp second
        generalize read : ISODateTime.parseSeconds src (start + 5) = result at parsed
        obtain ⟨s, ms, index⟩ := result
        cases parsed
        obtain ⟨seconds, fits, text, rfl, rfl, long⟩ := seconds_of_parseSeconds zone read
        exact ⟨h, m, seconds, here, by simpa using colon, here', text, hour_le, minute_le, fits,
          rfl, long⟩
  · rintro ⟨hour, minute, seconds, here, colon, here', text, hour_le, minute_le, fits, rfl, rfl⟩
    have first : twoDigits src start 0 23 = some hour.value :=
      twoDigits_iff.mpr ⟨hour, here, rfl, hour.value_bounds.1, hour_le⟩
    have second : twoDigits src (start + 3) 0 59 = some minute.value :=
      twoDigits_iff.mpr ⟨minute, here', rfl, minute.value_bounds.1, minute_le⟩
    rw [first]
    dsimp only
    rw [colon, second]
    dsimp only
    rw [if_neg (by decide), parseSeconds_of_here fits text zone]

theorem addMinute_zero (low : 0 ≤ d.minute) (high : d.minute ≤ 59) : d.addMinute (-0) = some d := by
  unfold ISODateTime.addMinute
  dsimp only
  rw [if_neg (by omega), if_neg (by omega)]
  simp

theorem here_zone_offset {minus : Bool} {hour minute : Pair} :
    Here src start (Zone.offset minus hour minute).text ↔
      charIs src start (if minus then '-' else '+') = true ∧ Here src (start + 1) hour.text ∧
        charIs src (start + 3) ':' = true ∧ Here src (start + 4) minute.text := by
  have colon : ∀ index, Here src index [0x3a] ↔ charIs src index ':' = true :=
    fun index => (charIs_iff ':').symm
  have sign : Here src start [if minus then 0x2d else 0x2b] ↔
      charIs src start (if minus then '-' else '+') = true := by
    cases minus with
    | true => exact (charIs_iff '-').symm
    | false => exact (charIs_iff '+').symm
  unfold Zone.text
  rw [here_append, here_append, here_append, colon, sign, and_assoc]
  rfl

/-- The zone is subtracted. -/
theorem parseTimeZone_iff (low : 0 ≤ d.minute) (high : d.minute ≤ 59) :
    d.parseTimeZone src start = some (d', end_) ↔ ∃ zone : Zone, zone.Fits ∧
      Here src start zone.text ∧ end_ = start + zone.text.length ∧
      d.addMinute (-zone.minutes) = some d' := by
  unfold ISODateTime.parseTimeZone
  constructor
  · intro parsed
    by_cases z : charIs src start 'Z' = true
    · rw [if_pos z] at parsed
      cases parsed
      exact ⟨.utc, ⟨nofun, nofun⟩, (charIs_iff _).mp z, rfl, addMinute_zero low high⟩
    · rw [if_neg z] at parsed
      obtain ⟨sign, parsed⟩ := Option.ite_none_left_eq_some.mp parsed
      cases first : twoDigits src (start + 1) 0 23 with
      | none =>
        rw [first] at parsed
        cases parsed
      | some h =>
        rw [first] at parsed
        obtain ⟨colon, parsed⟩ := Option.ite_none_left_eq_some.mp parsed
        cases second : twoDigits src (start + 4) 0 59 with
        | none =>
          rw [second] at parsed
          cases parsed
        | some m =>
          rw [second] at parsed
          obtain ⟨hour, here, rfl, -, hour_le⟩ := twoDigits_iff.mp first
          obtain ⟨minute, here', rfl, -, minute_le⟩ := twoDigits_iff.mp second
          have fits : ∀ minus, (Zone.offset minus hour minute).Fits := by
            refine fun minus => ⟨?_, ?_⟩
            · intro _ _ _ same
              cases same
              exact hour_le
            · intro _ _ _ same
              cases same
              exact minute_le
          have colon' : charIs src (start + 3) ':' = true := by simpa using colon
          dsimp only at parsed
          by_cases minus : charIs src start '-' = true
          · rw [if_pos minus] at parsed
            obtain ⟨added, sum, same⟩ := Option.map_eq_some_iff.mp parsed
            cases same
            refine ⟨.offset true hour minute, fits true,
              here_zone_offset.mpr ⟨minus, here, colon', here'⟩, rfl, ?_⟩
            rw [Zone.minutes_minus]
            exact sum
          · rw [if_neg minus] at parsed
            obtain ⟨added, sum, same⟩ := Option.map_eq_some_iff.mp parsed
            cases same
            have plus : charIs src start '+' = true := by
              cases found : charIs src start '+' with
              | true => rfl
              | false =>
                rw [found, Bool.eq_false_of_not_eq_true minus] at sign
                exact absurd rfl sign
            exact ⟨.offset false hour minute, fits false,
              here_zone_offset.mpr ⟨plus, here, colon', here'⟩, rfl, sum⟩
  · rintro ⟨zone, fits, here, rfl, added⟩
    cases zone with
    | utc =>
      have z : charIs src start 'Z' = true := (charIs_iff _).mpr here
      rw [if_pos z]
      have same := (addMinute_zero low high).symm.trans added
      cases same
      rfl
    | offset minus hour minute =>
      obtain ⟨sign, first, colon, second⟩ := here_zone_offset.mp here
      have h : twoDigits src (start + 1) 0 23 = some hour.value :=
        twoDigits_iff.mpr ⟨hour, first, rfl, hour.value_bounds.1, fits.hour_le _ _ _ rfl⟩
      have m : twoDigits src (start + 4) 0 59 = some minute.value :=
        twoDigits_iff.mpr ⟨minute, second, rfl, minute.value_bounds.1, fits.minute_le _ _ _ rfl⟩
      cases minus with
      | true =>
        have z : charIs src start 'Z' = false := charIs_other sign (by decide)
        have minus : charIs src start '-' = true := sign
        have sum : -(-hour.value * 60 + -minute.value) = -(Zone.offset true hour minute).minutes := by
          rw [Zone.minutes_minus]
        rw [z, minus, h]
        dsimp only
        rw [colon, m]
        dsimp only
        rw [if_neg (by decide), if_neg (by simp), if_neg (by decide), if_pos rfl, sum, added]
        rfl
      | false =>
        have z : charIs src start 'Z' = false := charIs_other sign (by decide)
        have minus : charIs src start '-' = false := charIs_other sign (by decide)
        have plus : charIs src start '+' = true := sign
        have sum : -(hour.value * 60 + minute.value) = -(Zone.offset false hour minute).minutes := rfl
        rw [z, minus, plus, h]
        dsimp only
        rw [colon, m]
        dsimp only
        rw [if_neg (by decide), if_neg (by simp), if_neg (by decide), if_neg (by decide), sum, added]
        rfl

theorem zoneAt_of_here {zone : Zone} (here : Here src start zone.text) : ZoneAt src start := by
  cases zone with
  | utc => exact .inl ((charIs_iff _).mpr here)
  | offset minus hour minute =>
    obtain ⟨sign, -⟩ := here_zone_offset.mp here
    cases minus with
    | true => exact .inr (.inr sign)
    | false => exact .inr (.inl sign)

theorem here_written :
    Here src start w.text ↔ Here src start w.year.text ∧
      charIs src (start + w.year.length) '-' = true ∧
      Here src (start + w.year.length + 1) w.month.text ∧
      charIs src (start + w.year.length + 3) '-' = true ∧
      Here src (start + w.year.length + 4) w.day.text ∧
      charIs src (start + w.year.length + 6) 'T' = true ∧
      Here src (start + w.year.length + 7) w.hour.text ∧
      charIs src (start + w.year.length + 9) ':' = true ∧
      Here src (start + w.year.length + 10) w.minute.text ∧
      Here src (start + w.year.length + 12) w.seconds.text ∧
      Here src (start + w.year.length + 12 + w.seconds.text.length) w.zone.text := by
  have char : ∀ index c, charIs src index c = true ↔ Here src index [UInt16.ofNat c.toNat] :=
    fun index c => charIs_iff c
  unfold Written.text Written.dateText Written.timeText
  simp only [here_append, char, Digits.text_length, List.length_append, Pair.length_text,
    List.length_singleton, ← Nat.add_assoc, and_assoc]
  exact Iff.rfl

theorem Written.text_length : w.text.length =
    w.year.length + 12 + w.seconds.text.length + w.zone.text.length := by
  unfold Written.text Written.dateText Written.timeText
  simp only [List.length_append, Digits.text_length, Pair.length_text, List.length_singleton]
  omega

theorem Written.dateFits_iff (w : Written) : w.DateFits ↔ 4 ≤ w.year.length ∧
    w.year.value ≤ intMax ∧ 1 ≤ w.month.value ∧ w.month.value ≤ 12 ∧ 1 ≤ w.day.value ∧
    w.day.value ≤ maxDayOfMonth w.year.value (w.month.value - 1) ∧
    ISODateTime.isBeforeGregorianStart w.year.value (w.month.value - 1) w.day.value = false := by
  constructor
  · rintro ⟨four, bound, ⟨month_lt, day_pos, day_le⟩, month_pos, late⟩
    have high : w.month.value ≤ 12 := by omega
    rw [maxDayOfMonth_eq _ _ (by omega) (by omega)]
    exact ⟨four, bound, month_pos, high, day_pos, day_le, late⟩
  · rintro ⟨four, bound, low, high, day_pos, day_le, late⟩
    rw [maxDayOfMonth_eq _ _ (by omega) (by omega)] at day_le
    exact ⟨four, bound, ⟨by omega, day_pos, day_le⟩, low, late⟩

theorem zoneAt_of_parsed (parsed : d.parseTimeZone src start = some (d', end_)) :
    ZoneAt src start := by
  unfold ISODateTime.parseTimeZone at parsed
  by_cases z : charIs src start 'Z' = true
  · exact .inl z
  · rw [if_neg z] at parsed
    have sign := (Option.ite_none_left_eq_some.mp parsed).1
    cases plus : charIs src start '+' with
    | true => exact .inr (.inl plus)
    | false =>
      cases minus : charIs src start '-' with
      | true => exact .inr (.inr minus)
      | false =>
        rw [plus, minus] at sign
        exact absurd rfl sign

/-- A date and time is read as it is written, and the zone is left to `addMinute`. -/
theorem parseDateTime_iff :
    d.parseDateTime src start = some (d', end_) ↔ ∃ w : Written, w.Fits ∧ Here src start w.text ∧
      end_ = start + w.text.length ∧ (w.localTime d).addMinute (-w.zone.minutes) = some d' := by
  unfold ISODateTime.parseDateTime
  constructor
  · intro parsed
    cases date : d.parseDate src start with
    | none =>
      rw [date] at parsed
      cases parsed
    | some result =>
      obtain ⟨d₁, index⟩ := result
      rw [date] at parsed
      obtain ⟨year, month, day, four, y, dash, m, dash', dd, bound, low, high, low', high', late,
        rfl, rfl⟩ := parseDate_iff.mp date
      obtain ⟨t, parsed⟩ := Option.ite_none_left_eq_some.mp parsed
      cases time : ISODateTime.parseTime { d with
          year := year.value, month := month.value - 1, monthDay := day.value }
          src (start + year.length + 6 + 1) with
      | none =>
        rw [time] at parsed
        cases parsed
      | some result =>
        obtain ⟨d₂, index⟩ := result
        rw [time] at parsed
        have zoneAt : ZoneAt src index := zoneAt_of_parsed parsed
        obtain ⟨hour, minute, seconds, h, colon, mm, ss, hour_le, minute_le, fits, rfl, rfl⟩ :=
          (parseTime_iff zoneAt).mp time
        obtain ⟨zone, zoneFits, z, rfl, added⟩ :=
          (parseTimeZone_iff minute.value_bounds.1 minute_le).mp parsed
        let w : Written := ⟨year, month, day, hour, minute, seconds, zone⟩
        refine ⟨w, ⟨w.dateFits_iff.mpr ⟨four, bound, low, high, low', high', late⟩,
          ⟨hour_le, minute_le, fits⟩, zoneFits⟩, ?_, ?_, added⟩
        · exact here_written.mpr ⟨y, dash, m, dash', dd, by simpa using t, h, colon, mm, ss, z⟩
        · rw [Written.text_length]
          dsimp only [w]
          omega
  · rintro ⟨w, ⟨date, time, zone⟩, here, rfl, added⟩
    obtain ⟨y, dash, m, dash', dd, t, h, colon, mm, ss, z⟩ := here_written.mp here
    obtain ⟨four, bound, low, high, low', high', late⟩ := w.dateFits_iff.mp date
    have first := (parseDate_iff (d := d)).mpr ⟨w.year, w.month, w.day, four, y, dash, m, dash', dd,
      bound, low, high, low', high', late, rfl, rfl⟩
    have second := (parseTime_iff (d := { d with
        year := w.year.value, month := w.month.value - 1, monthDay := w.day.value })
      (zoneAt_of_here z)).mpr ⟨w.hour, w.minute, w.seconds, h, colon, mm, ss, time.hour_le,
        time.minute_le, time.seconds, rfl, rfl⟩
    have third := (parseTimeZone_iff (d := w.localTime d) w.minute.value_bounds.1
      time.minute_le).mpr ⟨w.zone, zone, z, rfl, added⟩
    rw [first]
    dsimp only
    rw [t, if_neg (by decide), second]
    dsimp only
    have total : start + w.text.length = start + w.year.length + 12 + w.seconds.text.length +
        w.zone.text.length := by
      rw [Written.text_length]
      omega
    rw [total]
    exact third

namespace ISODateTime

/-- `addDay` changes the date only. -/
theorem addDay_clock {n : Int} (added : d.addDay n = some d') :
    d'.second = d.second ∧ d'.millisecond = d.millisecond := by
  unfold addDay at added
  dsimp only at added
  split_ifs at added
  · obtain ⟨later, -, rfl⟩ := Option.map_eq_some_iff.mp added
    exact ⟨rfl, rfl⟩
  · obtain ⟨earlier, -, rfl⟩ := Option.map_eq_some_iff.mp added
    exact ⟨rfl, rfl⟩
  · cases added
    exact ⟨rfl, rfl⟩

/-- Hours are carried into days. -/
theorem addHour_instant {minute carry : Int} (valid : d.HasDate) (year_pos : 0 < d.year)
    (hour : 0 ≤ d.hour ∧ d.hour ≤ 23) (carry_range : 0 ≤ carry ∧ carry ≤ 48) (added : d.addHour minute carry = some d') :
    d'.HasDate ∧ (0 ≤ d'.hour ∧ d'.hour ≤ 23) ∧ d'.minute = minute ∧
      d'.number * 24 + d'.hour = d.number * 24 + d.hour + carry ∧
      d'.second = d.second ∧ d'.millisecond = d.millisecond := by
  have day_le := valid.present.day_le
  have long := (monthLength_pos (isLeap d.year) d.month.toNat).2
  unfold addHour at added
  dsimp only at added
  by_cases beyond : d.hour + carry > 23
  · rw [if_pos beyond] at added
    obtain ⟨next, forward, rfl⟩ := Option.map_eq_some_iff.mp added
    have fits : d.monthDay + (d.hour + carry) / 24 ≤ intMax := by
      unfold intMax
      omega
    obtain ⟨valid', number⟩ := addDay_number valid year_pos (by omega) fits forward
    obtain ⟨second, millisecond⟩ := addDay_clock forward
    refine ⟨valid', ?_, rfl, ?_, second, millisecond⟩
    · change 0 ≤ (d.hour + carry) % 24 ∧ (d.hour + carry) % 24 ≤ 23
      omega
    · change next.number * 24 + (d.hour + carry) % 24 = _
      rw [number]
      omega
  · rw [if_neg beyond, if_neg (by omega)] at added
    cases added
    refine ⟨valid, ?_, rfl, ?_, rfl, rfl⟩
    · change 0 ≤ d.hour + carry ∧ d.hour + carry ≤ 23
      omega
    · change d.number * 24 + (d.hour + carry) = _
      omega

/-- As long as the sum of the minutes is not negative, `addMinute` adds to the instant. -/
theorem addMinute_instant {n : Int} (inRange : d.InRange) (year_pos : 0 < d.year)
    (forward : 0 ≤ n + d.minute) (small : n ≤ 1440) (added : d.addMinute n = some d') :
    d'.InRange ∧ d'.instant = d.instant + n ∧ d'.second = d.second ∧
      d'.millisecond = d.millisecond := by
  have minute := inRange.minute
  unfold addMinute at added
  dsimp only at added
  by_cases beyond : n + d.minute > 59
  · rw [if_pos beyond] at added
    obtain ⟨valid, hour, minute', total, second, millisecond⟩ :=
      addHour_instant inRange.date year_pos inRange.hour (by omega) added
    refine ⟨⟨valid, hour, by omega, second ▸ inRange.second,
      millisecond ▸ inRange.millisecond⟩, ?_, second, millisecond⟩
    unfold instant
    omega
  · rw [if_neg beyond, if_neg (by omega)] at added
    cases added
    refine ⟨⟨inRange.date, inRange.hour, ?_, inRange.second, inRange.millisecond⟩, ?_, rfl, rfl⟩
    · change 0 ≤ n + d.minute ∧ n + d.minute ≤ 59
      omega
    · change d.number * 1440 + d.hour * 60 + (n + d.minute) = _
      unfold instant
      omega

/-- A negative sum is kept as it is. -/
theorem addMinute_negative {n : Int} (minute : 0 ≤ d.minute) (back : n + d.minute < 0) :
    d.addMinute n = some { d with minute := n + d.minute } := by
  unfold addMinute
  dsimp only
  rw [if_neg (by omega), if_neg (by omega)]

end ISODateTime

/-! A text is read in one way only. -/

theorem Here.eq {first second : Text} (here : Here src index first) (here' : Here src index second)
    (same : first.length = second.length) : first = second :=
  (List.prefix_of_prefix_length_le here here' same.le).eq_of_length same

theorem Here.pair_eq {first second : Pair} (here : Here src index first.text)
    (here' : Here src index second.text) : first = second := by
  have texts := here.eq here' rfl
  unfold Pair.text at texts
  obtain ⟨tens, rest⟩ := List.cons.inj texts
  obtain ⟨ones, -⟩ := List.cons.inj rest
  cases first
  cases second
  rw [Pair.mk.injEq]
  exact ⟨digitChar_injective tens, digitChar_injective ones⟩

theorem Here.digits_eq {first second : Digits} (here : Here src index first.text)
    (stop : NoDigit src (index + first.length)) (here' : Here src index second.text)
    (stop' : NoDigit src (index + second.length)) : first = second := by
  have long : first.length = second.length :=
    (countDigits_eq here stop).symm.trans (countDigits_eq here' stop')
  have texts := here.eq here' (by simpa using long)
  exact List.map_injective_iff.mpr digitChar_injective texts

theorem Zone.eq_of_here {first second : Zone} (here : Here src index first.text)
    (here' : Here src index second.text) : first = second := by
  have utcOnly : ∀ {minus hour minute}, Here src index Zone.utc.text →
      ¬Here src index (Zone.offset minus hour minute).text := by
    intro minus hour minute z other
    have z' : charIs src index 'Z' = true := (charIs_iff _).mpr z
    have sign := (here_zone_offset.mp other).1
    rw [charIs_other z' (by cases minus <;> decide)] at sign
    cases sign
  cases first with
  | utc =>
    cases second with
    | utc => rfl
    | offset minus hour minute => exact absurd here' (utcOnly here)
  | offset minus hour minute =>
    cases second with
    | utc => exact absurd here (utcOnly here')
    | offset minus' hour' minute' =>
      obtain ⟨sign, h, -, m⟩ := here_zone_offset.mp here
      obtain ⟨sign', h', -, m'⟩ := here_zone_offset.mp here'
      have same : minus = minus' := by
        by_contra different
        rw [charIs_other sign (by revert different; cases minus <;> cases minus' <;> decide)] at sign'
        cases sign'
      rw [same, h.pair_eq h', m.pair_eq m']

theorem Seconds.eq_of_here {first second : Seconds} {zone zone' : Zone}
    (here : Here src index first.text) (z : Here src (index + first.text.length) zone.text)
    (here' : Here src index second.text) (z' : Here src (index + second.text.length) zone'.text) :
    first = second := by
  have after_ := zoneAt_of_here z
  have after' := zoneAt_of_here z'
  have colon : ∀ pair rest, Here src index ([0x3a] ++ pair ++ rest) →
      charIs src index ':' = true := by
    intro pair rest text
    rw [List.append_assoc] at text
    exact (charIs_iff _).mpr ((here_append _ _).mp text).1
  have absentOnly : ∀ pair rest, ZoneAt src index → ¬Here src index ([0x3a] ++ pair ++ rest) := by
    intro pair rest zone text
    have mark := colon pair rest text
    rw [zone.other (c := ':') (by decide) (by decide) (by decide)] at mark
    cases mark
  have wholeOnly : ∀ (pair : Pair) (digits : Digits), ZoneAt src (index + 3) →
      ¬Here src index (Seconds.fraction pair digits).text := by
    intro pair digits zone text
    obtain ⟨-, rest⟩ := (here_append _ _).mp text
    have dot : charIs src (index + 3) '.' = true :=
      (charIs_iff _).mpr ((here_append _ _).mp rest).1
    rw [zone.other (c := '.') (by decide) (by decide) (by decide)] at dot
    cases dot
  have pairOf : ∀ {pair : Pair} {rest : Text}, Here src index ([0x3a] ++ pair.text ++ rest) →
      Here src (index + 1) pair.text := by
    intro pair rest text
    exact ((here_append _ _).mp ((here_append _ _).mp text).1).2
  have wholeHere : ∀ {pair : Pair}, Here src index (Seconds.whole pair).text →
      Here src index ([0x3a] ++ pair.text ++ []) := by
    intro pair text
    rwa [List.append_nil]
  cases first with
  | absent =>
    cases second with
    | absent => rfl
    | whole pair => exact absurd (wholeHere here') (absentOnly _ _ after_)
    | fraction pair digits => exact absurd here' (absentOnly _ _ after_)
  | whole pair =>
    cases second with
    | absent => exact absurd (wholeHere here) (absentOnly _ _ after')
    | whole pair' => rw [(pairOf (wholeHere here)).pair_eq (pairOf (wholeHere here'))]
    | fraction pair' digits => exact absurd here' (wholeOnly _ _ after_)
  | fraction pair digits =>
    cases second with
    | absent => exact absurd here (absentOnly _ _ after')
    | whole pair' => exact absurd here (wholeOnly _ _ after')
    | fraction pair' digits' =>
      have long : ∀ (pair : Pair) (digits : Digits),
          index + (Seconds.fraction pair digits).text.length = index + 3 + 1 + digits.length := by
        intro pair digits
        simp [Seconds.text, Pair.length_text]
        omega
      rw [long] at after_ after'
      obtain ⟨-, rest⟩ := (here_append _ _).mp here
      obtain ⟨-, rest'⟩ := (here_append _ _).mp here'
      have d : Here src (index + 3 + 1) digits.text := ((here_append _ _).mp rest).2
      have d' : Here src (index + 3 + 1) digits'.text := ((here_append _ _).mp rest').2
      rw [(pairOf here).pair_eq (pairOf here'), d.digits_eq after_.noDigit d' after'.noDigit]

theorem Written.eq_of_here {w w' : Written} (here : Here src start w.text)
    (here' : Here src start w'.text) : w = w' := by
  obtain ⟨y, dash, m, -, dd, -, h, -, mm, ss, z⟩ := here_written.mp here
  obtain ⟨y', dash', m', -, dd', -, h', -, mm', ss', z'⟩ := here_written.mp here'
  have year := y.digits_eq (noDigit_of_here ((charIs_iff _).mp dash) (by decide)) y'
    (noDigit_of_here ((charIs_iff _).mp dash') (by decide))
  rw [← year] at m' dd' h' mm' ss' z'
  have seconds := Seconds.eq_of_here ss z ss' z'
  rw [← seconds] at z'
  cases w
  cases w'
  rw [Written.mk.injEq]
  exact ⟨year, m.pair_eq m', dd.pair_eq dd', h.pair_eq h', mm.pair_eq mm', seconds,
    Zone.eq_of_here z z'⟩

/-- The first minute of 1582-10-15, in UTC. -/
def gregorianStart : Int :=
  dateNumber gregorianStartYear gregorianStartMonth gregorianStartDay * 1440

/-- What is read is in range and is the instant that is written, and nothing before the start of the
calendar is read. -/
structure Normalised (d : ISODateTime) (src : Text) (start : Nat) : Prop where
  instant : ∀ d' end_, d.parseDateTime src start = some (d', end_) → d'.InRange ∧
    ∃ w : Written, Here src start w.text ∧ end_ = start + w.text.length ∧
      d'.instant = w.instant ∧ d'.second = w.seconds.second ∧
      d'.millisecond = w.seconds.millisecond
  early : ∀ w : Written, Here src start w.text → w.instant < gregorianStart →
    d.parseDateTime src start = none

theorem Zone.Fits.bounds {zone : Zone} (fits : zone.Fits) :
    -1439 ≤ zone.minutes ∧ zone.minutes ≤ 1439 := by
  cases zone with
  | utc => decide
  | offset minus hour minute =>
    have hour_le := fits.hour_le _ _ _ rfl
    have minute_le := fits.minute_le _ _ _ rfl
    have hour_nonneg := hour.value_bounds.1
    have minute_nonneg := minute.value_bounds.1
    unfold minutes
    dsimp only
    split_ifs <;> omega

theorem Seconds.millisecond_bounds (seconds : Seconds) :
    0 ≤ seconds.millisecond ∧ seconds.millisecond ≤ 999 := by
  cases seconds with
  | absent => decide
  | whole second => exact ⟨le_refl 0, Int.zero_le_ofNat 999⟩
  | fraction second digits =>
    have nonneg := digits.value_nonneg
    have bound := digits.value_lt
    have taken := Digits.value_lt (digits.take 3)
    have taken_nonneg := Digits.value_nonneg (digits.take 3)
    have power : (10 : Int) ^ (digits.take 3).length ≤ 10 ^ 3 :=
      pow_le_pow_right₀ (by decide) (List.length_take_le 3 digits)
    unfold millisecond
    dsimp only
    split_ifs with one two
    · rw [one] at bound
      omega
    · rw [two] at bound
      omega
    · omega

theorem Seconds.second_nonneg (seconds : Seconds) : 0 ≤ seconds.second := by
  cases seconds with
  | absent => exact le_refl 0
  | whole second => exact second.value_bounds.1
  | fraction second digits => exact second.value_bounds.1

theorem Written.DateFits.year_pos (fits : w.DateFits) : 0 < w.year.value := by
  have late := ((isBeforeGregorianStart_iff ..).mp fits.late).1
  exact lt_of_lt_of_le (by decide) late

theorem Written.Fits.inRange (fits : w.Fits) (d : ISODateTime) : (w.localTime d).InRange where
  date := ⟨w.year.value_nonneg, fits.date.year_le, Int.sub_nonneg_of_le fits.date.month_pos,
    fits.date.present⟩
  hour := ⟨w.hour.value_bounds.1, fits.time.hour_le⟩
  minute := ⟨w.minute.value_bounds.1, fits.time.minute_le⟩
  second := ⟨w.seconds.second_nonneg, fits.time.seconds.second_le⟩
  millisecond := w.seconds.millisecond_bounds

/-- A date that the guards let through is not before the first day of the calendar. -/
theorem Written.DateFits.number_le (fits : w.DateFits) :
    dateNumber gregorianStartYear gregorianStartMonth gregorianStartDay ≤
      dateNumber w.year.value (w.month.value - 1) w.day.value := by
  obtain ⟨year, month, day⟩ := (isBeforeGregorianStart_iff ..).mp fits.late
  obtain ⟨month_lt, day_pos, -⟩ := fits.present
  have first : dateNumber gregorianStartYear gregorianStartMonth gregorianStartDay = 577736 := by
    decide
  have before : ∀ leap, ∀ month ∈ List.range 12, 0 ≤ daysBeforeMonth leap month := by decide
  have months := before (isLeap w.year.value) _ (List.mem_range.mpr month_lt)
  rw [first]
  unfold dateNumber dayNumber
  unfold gregorianStartYear gregorianStartMonth gregorianStartDay at *
  by_cases same : w.year.value = 1582
  · have late : 9 ≤ w.month.value - 1 := by
      by_contra early
      exact month ⟨same, by omega⟩
    have year_days : daysBeforeYear 1582 = 577448 := by decide
    have leap : isLeap 1582 = false := by decide
    rw [same, year_days, leap]
    by_cases october : w.month.value - 1 = 9
    · have day_late : 15 ≤ w.day.value := by
        by_contra early
        exact day ⟨same, october, by omega⟩
      have october_days : daysBeforeMonth false (Int.toNat 9) = 273 := by decide
      rw [october, october_days]
      omega
    · have after_ : ∀ month ∈ List.range 12, 10 ≤ month → 304 ≤ daysBeforeMonth false month := by
        decide
      have later := after_ _ (List.mem_range.mpr month_lt) (by omega)
      omega
  · unfold daysBeforeYear
    omega

/-- A date and time is normalised exactly when the zone asks for no carry below minute 0. -/
theorem normalised_iff : Normalised d src start ↔
    ∀ w : Written, w.Fits → Here src start w.text → w.zone.minutes ≤ w.minute.value := by
  constructor
  · intro normalised w fits here
    by_contra back
    have negative : -w.zone.minutes + (w.localTime d).minute < 0 := by
      change -w.zone.minutes + w.minute.value < 0
      omega
    have added := ISODateTime.addMinute_negative (d := w.localTime d) w.minute.value_bounds.1 negative
    have parsed := parseDateTime_iff.mpr ⟨w, fits, here, rfl, added⟩
    have minute := (normalised.instant _ _ parsed).1.minute.1
    exact absurd minute (Int.not_le.mpr negative)
  · intro forward
    constructor
    · intro d' end_ parsed
      obtain ⟨w, fits, here, rfl, added⟩ := parseDateTime_iff.mp parsed
      have back := forward w fits here
      have bounds := fits.zone.bounds
      obtain ⟨inRange, instant, second, millisecond⟩ :=
        ISODateTime.addMinute_instant (fits.inRange d) fits.date.year_pos
          (by change 0 ≤ -w.zone.minutes + w.minute.value; omega) (by omega) added
      exact ⟨inRange, w, here, rfl, instant, second, millisecond⟩
    · intro w here early
      cases parsed : d.parseDateTime src start with
      | none => rfl
      | some result =>
        obtain ⟨w', fits, here', -⟩ := parseDateTime_iff.mp parsed
        obtain rfl := Written.eq_of_here here here'
        have back := forward w fits here
        have number := fits.date.number_le
        have hour := w.hour.value_bounds.1
        unfold Written.instant gregorianStart at early
        omega

/-- The start of 2010 one hour east has minute -60. -/
theorem not_normalised : ¬Normalised {} (widen (ascii "2010-01-01T00:00+01:00")) 0 := by
  intro normalised
  have parsed : ISODateTime.parseDateTime {} (widen (ascii "2010-01-01T00:00+01:00")) 0 =
      some ({ year := 2010, month := 0, monthDay := 1, hour := 0, minute := -60 }, 22) := by
    decide
  have minute := (normalised.instant _ _ parsed).1.minute.1
  exact absurd minute (by decide)

end WkcBrowser.Html
