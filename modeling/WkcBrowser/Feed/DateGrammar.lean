import WkcBrowser.Feed.W3CDates
import WkcBrowser.Lib.Bytes

/-! The grammar of RFC5322 dates, and that `parseRFC5322DateTime` takes the texts that begin with one. -/

namespace WkcBrowser.Feed

open Lib Lib.Scan Wtf

/-- `[BWS] day-name [BWS]` -/
def DayOfWeekText (word : List Byte) : Prop :=
  ∃ before name after, word = before ++ (name ++ after) ∧ White before ∧
    (∃ entry ∈ dayNames.zipIdx, IsName (ascii entry.1) name) ∧ White after

/-- `[BWS] 1*2DIGIT BWS` -/
def DayText (word : List Byte) (day : Nat) : Prop :=
  ∃ before digits after, word = before ++ (digits ++ after) ∧ White before ∧ Digits 1 2 digits day ∧ BWS after

def MonthText (word : List Byte) (month : Nat) : Prop :=
  ∃ entry ∈ monthNames.zipIdx, IsName (ascii entry.1) word ∧ month = entry.2 + 1

/-- `BWS 2*9DIGIT BWS` -/
def YearText (word : List Byte) (year : Nat) : Prop :=
  ∃ before digits after, word = before ++ (digits ++ after) ∧ BWS before ∧
    Digits 2 9 digits (decimal digits) ∧ BWS after ∧ year = fullYear digits.length (decimal digits) ∧ 0 < year

/-- `day month year` -/
def DateText (word : List Byte) (date : Nat × Nat × Nat) : Prop :=
  ∃ day month year, word = day ++ (month ++ year) ∧ DayText day date.2.2 ∧ MonthText month date.2.1 ∧
    YearText year date.1 ∧ 1 ≤ date.2.2 ∧ date.2.2 ≤ lastDayOfMonth date.1 date.2.1

/-- `[BWS] 2DIGIT [BWS]`, for an hour, a minute or a second. -/
def PartText (limit : Nat) (word : List Byte) (value : Nat) : Prop :=
  ∃ before digits after, word = before ++ (digits ++ after) ∧ White before ∧ Digits 2 2 digits value ∧
    White after ∧ value ≤ limit

/-- `hour ":" minute [ ":" second ]` -/
def TimeOfDayText (word : List Byte) (time : TimeOfDay) : Prop :=
  ∃ hour minute, PartText 23 hour time.hour ∧ PartText 59 minute time.minute ∧
    (word = hour ++ (0x3a :: minute) ∧ time.type = .ymdhmz ∧ time.second = 0 ∨
      ∃ second, word = hour ++ (0x3a :: (minute ++ (0x3a :: second))) ∧ time.type = .ymdhmsz ∧
        PartText 60 second time.second)

/-- `( "+" / "-" ) 4DIGIT` -/
def NumericZoneText (word : List Byte) (zone : Int) : Prop :=
  ∃ sign digits value factor, word = sign :: digits ∧ Digits 4 4 digits value ∧ value ≤ 9959 ∧
    (sign = 0x2b ∧ factor = 1 ∨ sign = 0x2d ∧ factor = -1) ∧
    zone = factor * ((60 * (value / 100) + value % 100 : Nat) : Int)

section
variable (zones : List (String × Int))

def ZoneText (word : List Byte) (zone : Int) : Prop :=
  NumericZoneText word zone ∨ ∃ entry ∈ zones, IsName (ascii entry.1) word ∧ zone = zoneMinutes entry.2

/-- `[ day-of-week "," ] date time-of-day zone` -/
def DateTimeText (word : List Byte) (date : Date) : Prop :=
  ∃ front day time zone, word = front ++ (day ++ (time ++ zone)) ∧
    (front = [] ∨ ∃ name, front = name ++ [0x2c] ∧ DayOfWeekText name) ∧
    ∃ ymd hms minutes, DateText day ymd ∧ TimeOfDayText time hms ∧ ZoneText zones zone minutes ∧
      date = dateOf ymd hms minutes

end

/-! What the parsers read. -/

theorem reads_dayOfWeek : parseRFC5322DayOfWeek.Reads fun word _ => DayOfWeekText word := by
  apply Reads.attempt
  intro text day rest found
  simp only [bind_eq_some, pure_eq_some] at found
  obtain ⟨_, _, beforeRead, _, _, nameRead, _, _, afterRead, rfl, rfl⟩ := found
  obtain ⟨before, rfl, white⟩ := reads_skipBWS beforeRead
  obtain ⟨name, rfl, entry, listed, named, rfl⟩ := reads_names dayNames.zipIdx id nameRead
  obtain ⟨after, rfl, white'⟩ := reads_skipBWS afterRead
  exact ⟨before ++ (name ++ after), by simp only [List.append_assoc], before, name, after, rfl, white,
    ⟨entry, listed, named⟩, white'⟩

theorem reads_month : parseRFC5322Month.Reads MonthText :=
  reads_names monthNames.zipIdx fun i => i + 1

theorem reads_year : parseRFC5322Year.Reads YearText := by
  apply Reads.attempt
  intro text year rest found
  simp only [bind_eq_some, guard_eq_some, pure_eq_some] at found
  obtain ⟨_, _, beforeRead, _, _, digitsRead, _, _, ⟨count, rfl⟩, _, _, ⟨positive, rfl⟩, _, _, afterRead, rfl,
    rfl⟩ := found
  obtain ⟨before, rfl, bws⟩ := reads_bws beforeRead
  obtain ⟨digits, rfl, rfl, all⟩ := reads_parseDigits digitsRead
  obtain ⟨after, rfl, bws'⟩ := reads_bws afterRead
  exact ⟨before ++ (digits ++ after), by simp only [List.append_assoc], before, digits, after, rfl, bws,
    ⟨all, count.1, count.2, rfl⟩, bws', rfl, positive⟩

theorem reads_date : parseRFC5322Date.Reads DateText := by
  apply Reads.attempt
  intro text date rest found
  simp only [bind_eq_some, guard_eq_some, pure_eq_some] at found
  obtain ⟨_, _, beforeRead, _, _, digitsRead, _, _, afterRead, _, _, monthRead, _, _, yearRead, _, _,
    ⟨inMonth, rfl⟩, rfl, rfl⟩ := found
  obtain ⟨before, rfl, white⟩ := reads_skipBWS beforeRead
  obtain ⟨digits, rfl, isDay⟩ := reads_digits digitsRead
  obtain ⟨after, rfl, bws⟩ := reads_bws afterRead
  obtain ⟨month, rfl, isMonth⟩ := reads_month monthRead
  obtain ⟨year, rfl, isYear⟩ := reads_year yearRead
  exact ⟨before ++ (digits ++ after) ++ (month ++ year), by simp only [List.append_assoc],
    before ++ (digits ++ after), month, year, rfl, ⟨before, digits, after, rfl, white, isDay, bws⟩, isMonth,
    isYear, inMonth⟩

theorem reads_sign : parseSign.Reads fun word factor =>
    word = [0x2b] ∧ factor = 1 ∨ word = [0x2d] ∧ factor = -1 := by
  intro text factor rest found
  rcases orElse_eq_some.mp found with plus | ⟨middle, absent, minus⟩
  · obtain ⟨_, _, signRead, same⟩ := bind_eq_some.mp plus
    obtain ⟨rfl, rfl⟩ := pure_eq_some.mp same
    exact ⟨[0x2b], octet_eq_some.mp signRead, Or.inl ⟨rfl, rfl⟩⟩
  · obtain rfl := restores_octet.bind_pure _ absent
    obtain ⟨_, _, signRead, same⟩ := bind_eq_some.mp minus
    obtain ⟨rfl, rfl⟩ := pure_eq_some.mp same
    exact ⟨[0x2d], octet_eq_some.mp signRead, Or.inr ⟨rfl, rfl⟩⟩

theorem reads_zone (zones : List (String × Int)) : (parseRFC5322Zone zones).Reads (ZoneText zones) := by
  apply Reads.orElse ?_ restores_attempt (reads_names zones zoneMinutes)
  apply Reads.attempt
  intro text zone rest found
  simp only [bind_eq_some, guard_eq_some, pure_eq_some] at found
  obtain ⟨_, _, signRead, _, _, digitsRead, _, _, ⟨small, rfl⟩, rfl, rfl⟩ := found
  obtain ⟨sign, rfl, isSign⟩ := reads_sign signRead
  obtain ⟨digits, rfl, isValue⟩ := reads_digits digitsRead
  rcases isSign with ⟨rfl, rfl⟩ | ⟨rfl, rfl⟩
  · exact ⟨0x2b :: digits, rfl, _, digits, _, 1, rfl, isValue, small, Or.inl ⟨rfl, rfl⟩, rfl⟩
  · exact ⟨0x2d :: digits, rfl, _, digits, _, -1, rfl, isValue, small, Or.inr ⟨rfl, rfl⟩, rfl⟩

/-- A part of a time is read up to its last digit, and the white space behind it with what follows. -/
theorem reads_timeOfDay : parseRFC5322TimeOfDay.Reads TimeOfDayText := by
  intro text time rest found
  rw [parseRFC5322TimeOfDay] at found
  obtain ⟨⟨hour, minute⟩, middle, whole, found⟩ := bind_eq_some.mp found
  obtain ⟨second, middle', secondRead, found⟩ := bind_eq_some.mp found
  obtain ⟨_, _, endRead, found⟩ := bind_eq_some.mp found
  obtain ⟨rfl, rfl⟩ := pure_eq_some.mp found
  rw [attempt_eq_some] at whole
  simp only [bind_eq_some, guard_eq_some, pure_eq_some] at whole
  obtain ⟨_, _, beforeHour, _, _, hourRead, _, _, ⟨isHour, rfl⟩, _, _, afterHour, _, _, colon, _, _,
    beforeMinute, _, _, minuteRead, _, _, ⟨isMinute, rfl⟩, same, rfl⟩ := whole
  obtain ⟨rfl, rfl⟩ := Prod.mk.inj same
  obtain ⟨w1, rfl, white1⟩ := reads_skipBWS beforeHour
  obtain ⟨d1, rfl, digits1⟩ := reads_digits hourRead
  obtain ⟨w2, rfl, white2⟩ := reads_skipBWS afterHour
  obtain rfl := octet_eq_some.mp colon
  obtain ⟨w3, rfl, white3⟩ := reads_skipBWS beforeMinute
  obtain ⟨d2, rfl, digits2⟩ := reads_digits minuteRead
  obtain ⟨w6, rfl, white6⟩ := reads_skipBWS endRead
  rw [optional_eq_some] at secondRead
  cases second with
  | none =>
    obtain rfl := restores_attempt secondRead
    exact ⟨w1 ++ (d1 ++ w2) ++ (0x3a :: (w3 ++ (d2 ++ w6))),
      by simp only [List.append_assoc, List.cons_append],
      w1 ++ (d1 ++ w2), w3 ++ (d2 ++ w6), ⟨w1, d1, w2, rfl, white1, digits1, white2, isHour⟩,
      ⟨w3, d2, w6, rfl, white3, digits2, white6, isMinute⟩, Or.inl ⟨rfl, rfl, rfl⟩⟩
  | some second =>
    rw [attempt_eq_some] at secondRead
    simp only [bind_eq_some, guard_eq_some, pure_eq_some] at secondRead
    obtain ⟨_, _, afterMinute, _, _, colon', _, _, beforeSecond, _, _, digitsRead, _, _, ⟨isSecond, rfl⟩, rfl,
      rfl⟩ := secondRead
    obtain ⟨w4, rfl, white4⟩ := reads_skipBWS afterMinute
    obtain rfl := octet_eq_some.mp colon'
    obtain ⟨w5, rfl, white5⟩ := reads_skipBWS beforeSecond
    obtain ⟨d3, rfl, digits3⟩ := reads_digits digitsRead
    exact ⟨w1 ++ (d1 ++ w2) ++ (0x3a :: (w3 ++ (d2 ++ w4) ++ (0x3a :: (w5 ++ (d3 ++ w6))))),
      by simp only [List.append_assoc, List.cons_append],
      w1 ++ (d1 ++ w2), w3 ++ (d2 ++ w4), ⟨w1, d1, w2, rfl, white1, digits1, white2, isHour⟩,
      ⟨w3, d2, w4, rfl, white3, digits2, white4, isMinute⟩,
      Or.inr ⟨w5 ++ (d3 ++ w6), rfl, rfl, w5, d3, w6, rfl, white5, digits3, white6, isSecond⟩⟩

theorem reads_time (zones : List (String × Int)) : (parseRFC5322Time zones).Reads fun word timeZone =>
    ∃ time zone, word = time ++ zone ∧ TimeOfDayText time timeZone.1 ∧ ZoneText zones zone timeZone.2 := by
  apply Reads.attempt
  intro text timeZone rest found
  simp only [bind_eq_some, pure_eq_some] at found
  obtain ⟨_, _, timeRead, _, _, zoneRead, rfl, rfl⟩ := found
  obtain ⟨time, rfl, isTime⟩ := reads_timeOfDay timeRead
  obtain ⟨zone, rfl, isZone⟩ := reads_zone zones zoneRead
  exact ⟨time ++ zone, (List.append_assoc ..).symm, time, zone, rfl, isTime, isZone⟩

theorem reads_dateTime (zones : List (String × Int)) :
    (scanRFC5322DateTime zones).Reads (DateTimeText zones) := by
  intro text date rest found
  simp only [scanRFC5322DateTime, bind_eq_some, pure_eq_some] at found
  obtain ⟨dayOfWeek, _, frontRead, _, _, dayRead, ⟨_, _⟩, ending, timeRead, rfl, rfl⟩ := found
  obtain ⟨day, rfl, isDay⟩ := reads_date dayRead
  obtain ⟨_, rfl, time, zone, rfl, isTime, isZone⟩ := reads_time zones timeRead
  have parts : ∃ front, text = front ++ (day ++ (time ++ zone ++ ending)) ∧
      (front = [] ∨ ∃ name, front = name ++ [0x2c] ∧ DayOfWeekText name) := by
    rw [optional_eq_some] at frontRead
    cases dayOfWeek with
    | none => exact ⟨[], (restores_attempt frontRead).symm, Or.inl rfl⟩
    | some u =>
      rw [attempt_eq_some] at frontRead
      obtain ⟨_, _, nameRead, comma⟩ := bind_eq_some.mp frontRead
      obtain ⟨name, rfl, isName⟩ := reads_dayOfWeek nameRead
      obtain rfl := octet_eq_some.mp comma
      exact ⟨name ++ [0x2c], List.append_cons .., Or.inr ⟨name, rfl, isName⟩⟩
  obtain ⟨front, rfl, isFront⟩ := parts
  exact ⟨front ++ (day ++ (time ++ zone)), by simp only [List.append_assoc], front, day, time, zone, rfl,
    isFront, _, _, _, isDay, isTime, isZone, rfl⟩

/-! Where each word begins and ends is seen from its first byte. -/

/-- No white space is in front. -/
def Firm (text : List Byte) : Prop := ∀ c ∈ text.head?, isWhite c = false

def isLower (c : Byte) : Bool := 0x61 ≤ c && c ≤ 0x7a

/-- The names begin with letters. -/
def Lettered {α : Type} (table : List (String × α)) : Prop :=
  ∀ entry ∈ table, ((ascii entry.1).map toASCIILower).head?.any isLower = true

theorem white_not_digit (c : Byte) (white : isWhite c = true) : isASCIIDigit c = false := by
  simp only [isWhite, Bool.or_eq_true, decide_eq_true_eq] at white
  rcases white with ((rfl | rfl) | rfl) | rfl <;> rfl

theorem digit_not_white (c : Byte) (digit : isASCIIDigit c = true) : isWhite c = false := by
  cases white : isWhite c with
  | false => rfl
  | true => exact absurd (white_not_digit c white) (by rw [digit]; decide)

theorem letter_other (c : Byte) (letter : isLower (toASCIILower c) = true) :
    isWhite c = false ∧ isASCIIDigit c = false ∧ c ≠ 0x2b ∧ c ≠ 0x2d ∧ c ≠ 0x3a := by
  have above : 0x41 ≤ c.toNat := by
    simp only [isLower, toASCIILower, Bool.and_eq_true, decide_eq_true_eq, UInt8.le_iff_toNat_le] at letter
    split at letter
    · have upper : 0x41 ≤ c.toNat ∧ c.toNat ≤ 0x5a := by assumption
      exact upper.1
    · have low : 0x61 ≤ c.toNat := letter.1
      omega
  have other (d : Byte) (small : d.toNat < 0x41) : c ≠ d := by
    rintro rfl
    omega
  refine ⟨?_, ?_, other 0x2b (by decide), other 0x2d (by decide), other 0x3a (by decide)⟩
  · simp only [isWhite, Bool.or_eq_false_iff, decide_eq_false_iff_not]
    exact ⟨⟨⟨other 0x09 (by decide), other 0x0a (by decide)⟩, other 0x0d (by decide)⟩, other 0x20 (by decide)⟩
  · have big : ¬c ≤ 0x39 := by
      rw [UInt8.le_iff_toNat_le]
      exact Nat.not_le.mpr (Nat.lt_of_lt_of_le (by decide) above)
    simp only [isASCIIDigit, big, decide_false, Bool.and_false]

section
variable {word rest : List Byte}

theorem dropWhile_firm (firm : Firm rest) : rest.dropWhile isWhite = rest := by
  cases rest with
  | nil => rfl
  | cons c rest =>
    have notWhite : ¬isWhite c = true := by
      rw [firm c rfl]
      exact Bool.false_ne_true
    rw [List.dropWhile_cons_of_neg notWhite]

theorem skipBWS_append (white : White word) (firm : Firm rest) : skipBWS (word ++ rest) = (some (), rest) := by
  rw [skipBWS_eq, dropWhile_white white, dropWhile_firm firm]

theorem bws_append_firm (bws : BWS word) (firm : Firm rest) : parseBWS (word ++ rest) = (some (), rest) := by
  rw [bws_append bws, dropWhile_firm firm]

theorem digits_head {m n value : Nat} (digits : Digits m n word value) (filled : 0 < m) :
    ∃ c s, word = c :: s ∧ isASCIIDigit c = true := by
  obtain ⟨all, enough, -, -⟩ := digits
  cases word with
  | nil => exact absurd (Nat.lt_of_lt_of_le filled enough) (Nat.lt_irrefl 0)
  | cons c s => exact ⟨c, s, rfl, all c List.mem_cons_self⟩

theorem digits_firm {m n value : Nat} (digits : Digits m n word value) (filled : 0 < m) :
    Firm (word ++ rest) := by
  obtain ⟨c, s, rfl, digit⟩ := digits_head digits filled
  intro d first
  obtain rfl := Option.some.inj first
  exact digit_not_white c digit

theorem bws_notDigit (bws : BWS word) : ∀ c ∈ (word ++ rest).head?, isASCIIDigit c = false := by
  obtain ⟨filled, white⟩ := bws
  cases word with
  | nil => exact absurd rfl filled
  | cons c s =>
    intro d first
    obtain rfl := Option.some.inj first
    exact white_not_digit c (white c List.mem_cons_self)

theorem name_head {α : Type} {table : List (String × α)} (letters : Lettered table) {entry : String × α}
    (listed : entry ∈ table) (isName : IsName (ascii entry.1) word) :
    ∃ c s, word = c :: s ∧ isLower (toASCIILower c) = true := by
  have first := letters entry listed
  rw [← isName] at first
  cases word with
  | nil => cases first
  | cons c s => exact ⟨c, s, rfl, first⟩

theorem name_firm {α : Type} {table : List (String × α)} (letters : Lettered table) {entry : String × α}
    (listed : entry ∈ table) (isName : IsName (ascii entry.1) word) : Firm (word ++ rest) := by
  obtain ⟨c, s, rfl, letter⟩ := name_head letters listed isName
  intro d first
  obtain rfl := Option.some.inj first
  exact (letter_other c letter).1

end

theorem dayNames_lettered : Lettered dayNames.zipIdx := by
  unfold Lettered
  decide

theorem monthNames_lettered : Lettered monthNames.zipIdx := by
  unfold Lettered
  decide

/-! What is derived is read. -/

section
variable {word rest : List Byte}

theorem dayName_append {name : List Byte} {entry : String × Nat} (listed : entry ∈ dayNames.zipIdx)
    (named : IsName (ascii entry.1) name) (rest : List Byte) :
    firstOf (dayNames.zipIdx.map fun (name, i) => do
      parseRFC5234OctetsNocase (ascii name)
      pure i) (name ++ rest) = (some entry.2, rest) :=
  names_append_exact (f := fun i => i) (by decide : ∀ entry ∈ dayNames.zipIdx, _ = 3)
    (by unfold IsName; decide) listed named rest

theorem dayOfWeek_append (isDay : DayOfWeekText word) (firm : Firm rest) :
    ∃ day, parseRFC5322DayOfWeek (word ++ rest) = (some day, rest) := by
  obtain ⟨before, name, after, rfl, white, ⟨entry, listed, named⟩, white'⟩ := isDay
  have nameRead := dayName_append listed named (after ++ rest)
  use entry.2
  rw [List.append_assoc, List.append_assoc, parseRFC5322DayOfWeek, attempt_eq_some,
    bind_of_some (skipBWS_append white (name_firm dayNames_lettered listed named)), bind_of_some nameRead,
    bind_of_some (skipBWS_append white' firm)]
  rfl

/-- A date without a day of the week begins with digits. -/
theorem dayOfWeek_of_day {day : Nat} (isDay : DayText word day) (rest : List Byte) :
    parseRFC5322DayOfWeek (word ++ rest) = (none, word ++ rest) := by
  obtain ⟨before, digits, after, rfl, white, isValue, -⟩ := isDay
  obtain ⟨c, s, rfl, digit⟩ := digits_head isValue Nat.one_pos
  rcases read : parseRFC5322DayOfWeek (before ++ (c :: s ++ after) ++ rest) with ⟨_ | day, middle⟩
  · rw [restores_attempt read]
  · obtain ⟨name, split, before', name', after', rfl, white', ⟨entry, listed, named⟩, -⟩ :=
      reads_dayOfWeek read
    obtain ⟨d, s', rfl, letter⟩ := name_head dayNames_lettered listed named
    have dropped := congrArg (List.dropWhile isWhite) split
    simp only [List.append_assoc] at dropped
    rw [dropWhile_white white, dropWhile_white white', dropWhile_firm (digits_firm isValue Nat.one_pos),
      dropWhile_firm (name_firm dayNames_lettered listed named)] at dropped
    obtain ⟨rfl, -⟩ := List.cons.inj dropped
    have notDigit := (letter_other c letter).2.1
    rw [digit] at notDigit
    cases notDigit

theorem month_append {month : Nat} (isMonth : MonthText word month) (rest : List Byte) :
    parseRFC5322Month (word ++ rest) = (some month, rest) := by
  obtain ⟨entry, listed, named, rfl⟩ := isMonth
  exact names_append_exact (f := fun i => i + 1) (by decide : ∀ entry ∈ monthNames.zipIdx, _ = 3)
    (by unfold IsName; decide) listed named rest

/-- The white space in front of the time is read with the year. -/
theorem year_append {year : Nat} (isYear : YearText word year) (rest : List Byte) :
    parseRFC5322Year (word ++ rest) = (some year, rest.dropWhile isWhite) := by
  obtain ⟨before, digits, after, rfl, bws, isValue, bws', rfl, positive⟩ := isYear
  have digitsRead : parseDigits (digits ++ (after ++ rest)) = (some digits, after ++ rest) := by
    obtain ⟨filled, white⟩ := bws'
    cases after with
    | nil => exact absurd rfl filled
    | cons c after =>
      have notDigit : ¬isASCIIDigit c = true := by
        rw [white_not_digit c (white c List.mem_cons_self)]
        exact Bool.false_ne_true
      unfold parseDigits
      rw [List.takeWhile_append_of_pos isValue.1, List.dropWhile_append_of_pos isValue.1, List.cons_append,
        List.takeWhile_cons_of_neg notDigit, List.dropWhile_cons_of_neg notDigit, List.append_nil]
  rw [List.append_assoc, List.append_assoc, parseRFC5322Year, attempt_eq_some,
    bind_of_some (bws_append_firm bws (digits_firm isValue Nat.two_pos)), bind_of_some digitsRead,
    bind_of_some (guard_of_holds ⟨isValue.2.1, isValue.2.2.1⟩ _),
    bind_of_some (guard_of_holds positive _), bind_of_some (bws_append bws' rest)]
  rfl

theorem date_append {date : Nat × Nat × Nat} (isDate : DateText word date) (rest : List Byte) :
    parseRFC5322Date (word ++ rest) = (some date, rest.dropWhile isWhite) := by
  obtain ⟨_, month, year, rfl, ⟨before, digits, after, rfl, white, isDay, bws⟩, isMonth, isYear, inMonth⟩ :=
    isDate
  have monthRead := month_append isMonth (year ++ rest)
  have firm : Firm (month ++ (year ++ rest)) := by
    obtain ⟨entry, listed, named, -⟩ := isMonth
    exact name_firm monthNames_lettered listed named
  simp only [List.append_assoc]
  rw [parseRFC5322Date, attempt_eq_some, bind_of_some (skipBWS_append white (digits_firm isDay Nat.one_pos)),
    bind_of_some (digits_append isDay (Or.inr (bws_notDigit bws))), bind_of_some (bws_append_firm bws firm),
    bind_of_some monthRead, bind_of_some (year_append isYear rest), bind_of_some (guard_of_holds inMonth _)]
  rfl

/-- A part of a time without the white space in front of it. -/
theorem PartText.dropWhile {limit value : Nat} (isPart : PartText limit word value) (rest : List Byte) :
    ∃ word', PartText limit word' value ∧ (word ++ rest).dropWhile isWhite = word' ++ rest := by
  obtain ⟨before, digits, after, rfl, white, isValue, white', small⟩ := isPart
  refine ⟨[] ++ (digits ++ after), ⟨[], digits, after, rfl, fun c absent => absurd absent List.not_mem_nil,
    isValue, white', small⟩, ?_⟩
  simp only [List.append_assoc, List.nil_append]
  rw [dropWhile_white white, dropWhile_firm (digits_firm isValue Nat.two_pos)]

theorem TimeOfDayText.dropWhile {time : TimeOfDay} (isTime : TimeOfDayText word time) (rest : List Byte) :
    ∃ word', TimeOfDayText word' time ∧ (word ++ rest).dropWhile isWhite = word' ++ rest := by
  obtain ⟨hour, minute, isHour, isMinute, ⟨rfl, ending⟩ | ⟨second, rfl, ending⟩⟩ := isTime
  · obtain ⟨hour', isHour', dropped⟩ := isHour.dropWhile (0x3a :: minute ++ rest)
    exact ⟨hour' ++ (0x3a :: minute), ⟨hour', minute, isHour', isMinute, Or.inl ⟨rfl, ending⟩⟩,
      by rw [List.append_assoc, List.append_assoc, dropped]⟩
  · obtain ⟨hour', isHour', dropped⟩ := isHour.dropWhile (0x3a :: (minute ++ (0x3a :: second)) ++ rest)
    exact ⟨hour' ++ (0x3a :: (minute ++ (0x3a :: second))),
      ⟨hour', minute, isHour', isMinute, Or.inr ⟨second, rfl, ending⟩⟩,
      by rw [List.append_assoc, List.append_assoc, dropped]⟩

/-- The white space behind the last part of a time is read with the part. -/
theorem timeOfDay_append {time : TimeOfDay} (isTime : TimeOfDayText word time) (firm : Firm rest)
    (ended : ∀ c ∈ rest.head?, c ≠ 0x3a) : parseRFC5322TimeOfDay (word ++ rest) = (some time, rest) := by
  obtain ⟨type, hour, minute, second⟩ := time
  obtain ⟨_, _, ⟨w1, d1, w2, rfl, white1, digits1, white2, isHour⟩,
    ⟨w3, d2, w4, rfl, white3, digits2, white4, isMinute⟩, last⟩ := isTime
  have colonFirm (text : List Byte) : Firm (0x3a :: text) := by
    intro c first
    obtain rfl := Option.some.inj first
    decide
  have hourMinute (text : List Byte) : (attempt do
      skipBWS
      let hour ← parseRFC5234Digits 2 2
      guard (hour ≤ 23)
      skipBWS
      parseRFC5234Octet 0x3a
      skipBWS
      let minute ← parseRFC5234Digits 2 2
      guard (minute ≤ 59)
      pure (hour, minute) : Scan Byte (Nat × Nat)) (w1 ++ (d1 ++ (w2 ++ (0x3a :: (w3 ++ (d2 ++ text)))))) =
        (some (hour, minute), text) := by
    have full1 := Nat.le_antisymm digits1.2.2.1 digits1.2.1
    have full2 := Nat.le_antisymm digits2.2.2.1 digits2.2.1
    rw [attempt_eq_some, bind_of_some (skipBWS_append white1 (digits_firm digits1 Nat.two_pos)),
      bind_of_some (digits_append digits1 (Or.inl full1)), bind_of_some (guard_of_holds isHour _),
      bind_of_some (skipBWS_append white2 (colonFirm _)), bind_of_some (octet_eq_some.mpr rfl),
      bind_of_some (skipBWS_append white3 (digits_firm digits2 Nat.two_pos)),
      bind_of_some (digits_append digits2 (Or.inl full2)), bind_of_some (guard_of_holds isMinute _)]
    rfl
  rcases last with ⟨rfl, rfl, rfl⟩ | ⟨_, rfl, rfl, w5, d3, w6, rfl, white5, digits3, white6, isSecond⟩
  · have noColon : ∃ middle, parseRFC5234Octet 0x3a rest = (none, middle) := by
      cases rest with
      | nil => exact ⟨[], rfl⟩
      | cons c rest => exact ⟨_, octet_of_ne (ended c rfl)⟩
    obtain ⟨middle, noColon⟩ := noColon
    have noSecond : (optional <| attempt do
        skipBWS
        parseRFC5234Octet 0x3a
        skipBWS
        let second ← parseRFC5234Digits 2 2
        guard (second ≤ 60)
        pure second : Scan Byte (Option Nat)) (w4 ++ rest) = (some none, w4 ++ rest) := by
      rw [optional_eq_some]
      apply attempt_of_none
      rw [bind_of_some (skipBWS_append white4 firm), bind_of_none noColon]
    simp only [List.append_assoc, List.cons_append]
    rw [parseRFC5322TimeOfDay, bind_of_some (hourMinute _)]
    dsimp only
    rw [bind_of_some noSecond, bind_of_some (skipBWS_append white4 firm)]
    rfl
  · have withSecond : (optional <| attempt do
        skipBWS
        parseRFC5234Octet 0x3a
        skipBWS
        let second ← parseRFC5234Digits 2 2
        guard (second ≤ 60)
        pure second : Scan Byte (Option Nat)) (w4 ++ (0x3a :: (w5 ++ (d3 ++ (w6 ++ rest))))) =
          (some (some second), w6 ++ rest) := by
      have full3 := Nat.le_antisymm digits3.2.2.1 digits3.2.1
      rw [optional_eq_some, attempt_eq_some, bind_of_some (skipBWS_append white4 (colonFirm _)),
        bind_of_some (octet_eq_some.mpr rfl),
        bind_of_some (skipBWS_append white5 (digits_firm digits3 Nat.two_pos)),
        bind_of_some (digits_append digits3 (Or.inl full3)), bind_of_some (guard_of_holds isSecond _)]
      rfl
    simp only [List.append_assoc, List.cons_append]
    rw [parseRFC5322TimeOfDay, bind_of_some (hourMinute _)]
    dsimp only
    rw [bind_of_some withSecond, bind_of_some (skipBWS_append white6 firm)]
    rfl

section
variable {zones : List (String × Int)} (letters : Lettered zones) {zone : Int} (isZone : ZoneText zones word zone)

include letters isZone

/-- A zone begins with a sign or a letter. -/
theorem zone_head : Firm (word ++ rest) ∧ ∀ c ∈ (word ++ rest).head?, c ≠ 0x3a := by
  rcases isZone with ⟨sign, digits, value, factor, rfl, -, -, isSign, -⟩ | ⟨entry, listed, named, -⟩
  · have notColon : isWhite sign = false ∧ sign ≠ 0x3a := by
      rcases isSign with ⟨rfl, -⟩ | ⟨rfl, -⟩
      · decide
      · decide
    constructor
    · intro c first
      obtain rfl := Option.some.inj first
      exact notColon.1
    · intro c first
      obtain rfl := Option.some.inj first
      exact notColon.2
  · obtain ⟨c, s, rfl, letter⟩ := name_head letters listed named
    refine ⟨name_firm letters listed named, ?_⟩
    intro d first
    obtain rfl := Option.some.inj first
    exact (letter_other c letter).2.2.2.2

/-- Of two names that stand there the first of the table is read. -/
theorem zone_append (rest : List Byte) :
    ∃ zone' rest', parseRFC5322Zone zones (word ++ rest) = (some zone', rest') := by
  rcases isZone with ⟨sign, digits, value, factor, rfl, isValue, small, isSign, rfl⟩ |
    ⟨entry, listed, named, rfl⟩
  · have signRead : parseSign (sign :: (digits ++ rest)) = (some factor, digits ++ rest) := by
      rcases isSign with ⟨rfl, rfl⟩ | ⟨rfl, rfl⟩
      · rfl
      · rfl
    have full := Nat.le_antisymm isValue.2.2.1 isValue.2.1
    refine ⟨factor * ((60 * (value / 100) + value % 100 : Nat) : Int), rest, ?_⟩
    apply orElse_eq_some.mpr
    left
    rw [attempt_eq_some, List.cons_append, bind_of_some signRead,
      bind_of_some (digits_append isValue (Or.inl full)), bind_of_some (guard_of_holds small _)]
    rfl
  · obtain ⟨c, s, rfl, letter⟩ := name_head letters listed named
    obtain ⟨-, -, notPlus, notMinus, -⟩ := letter_other c letter
    have noSign : parseSign (c :: s ++ rest) = (none, c :: s ++ rest) := by
      have plus : (do parseRFC5234Octet 0x2b; pure 1 : Scan Byte Int) (c :: s ++ rest) =
          (none, c :: s ++ rest) := bind_of_none (octet_of_ne notPlus)
      have minus : (do parseRFC5234Octet 0x2d; pure (-1) : Scan Byte Int) (c :: s ++ rest) =
          (none, c :: s ++ rest) := bind_of_none (octet_of_ne notMinus)
      unfold parseSign Scan.orElse
      rw [plus]
      exact minus
    obtain ⟨zone', rest', found⟩ := names_append listed named (f := zoneMinutes) rest
    exact ⟨zone', rest', orElse_eq_some.mpr (Or.inr ⟨_, attempt_of_none (bind_of_none noSign), found⟩)⟩

end

/-- A text that begins with a date and a time is taken. -/
theorem dateTime_append {zones : List (String × Int)} (letters : Lettered zones) {date : Date}
    (isDateTime : DateTimeText zones word date) (rest : List Byte) :
    ∃ date' rest', scanRFC5322DateTime zones (word ++ rest) = (some date', rest') := by
  obtain ⟨front, day, time, zone, rfl, isFront, ymd, hms, minutes, isDay, isTime, isZone, rfl⟩ := isDateTime
  obtain ⟨time', isTime', dropped⟩ := isTime.dropWhile (zone ++ rest)
  have head : Firm (zone ++ rest) ∧ ∀ c ∈ (zone ++ rest).head?, c ≠ 0x3a := zone_head letters isZone
  obtain ⟨firm, ended⟩ := head
  obtain ⟨zone', rest', zoneRead⟩ := zone_append letters isZone rest
  have timeRead : parseRFC5322Time zones ((time ++ (zone ++ rest)).dropWhile isWhite) =
      (some (hms, zone'), rest') := by
    rw [dropped, parseRFC5322Time, attempt_eq_some, bind_of_some (timeOfDay_append isTime' firm ended),
      bind_of_some zoneRead]
    rfl
  have frontRead : ∃ found, (optional <| attempt do
      let _ ← parseRFC5322DayOfWeek
      parseRFC5234Octet 0x2c : Scan Byte (Option Unit)) (front ++ (day ++ (time ++ (zone ++ rest)))) =
        (some found, day ++ (time ++ (zone ++ rest))) := by
    rcases isFront with rfl | ⟨name, rfl, isName⟩
    · obtain ⟨_, month, year, rfl, isDay, -⟩ := isDay
      have noName := dayOfWeek_of_day isDay (month ++ year ++ (time ++ (zone ++ rest)))
      rw [← List.append_assoc _ (month ++ year)] at noName
      exact ⟨none, optional_eq_some.mpr (attempt_of_none (bind_of_none noName))⟩
    · have comma (text : List Byte) : Firm (0x2c :: text) := by
        intro c first
        obtain rfl := Option.some.inj first
        decide
      obtain ⟨found, nameRead⟩ := dayOfWeek_append isName (comma (day ++ (time ++ (zone ++ rest))))
      use some ()
      rw [optional_eq_some, attempt_eq_some, List.append_assoc, List.cons_append, List.nil_append,
        bind_of_some nameRead]
      exact octet_eq_some.mpr rfl
  obtain ⟨found, frontRead⟩ := frontRead
  refine ⟨dateOf ymd hms zone', rest', ?_⟩
  simp only [List.append_assoc]
  rw [scanRFC5322DateTime, bind_of_some frontRead, bind_of_some (date_append isDay _), bind_of_some timeRead]
  rfl

end

theorem parseDateTime_false {scan : Scan Byte Date} {src rest : List Byte} {out date : Date}
    (failed : parseDateTime scan src out = (false, rest, date)) : rest = src ∧ date = out := by
  unfold parseDateTime at failed
  split at failed
  · cases failed
  · cases failed
    exact ⟨rfl, rfl⟩

theorem obsZones_lettered : Lettered obsZones := by
  unfold Lettered
  decide

/-- Texts that begin with a date and a time are taken, and nothing else. -/
theorem parseDateTime_iff {zones : List (String × Int)} (letters : Lettered zones) (src : List Byte)
    (out : Date) : (parseDateTime (scanRFC5322DateTime zones) src out).1 = true ↔
      ∃ word date, word <+: src ∧ DateTimeText zones word date := by
  constructor
  · intro taken
    rcases parsed : parseDateTime (scanRFC5322DateTime zones) src out with ⟨result, rest, date⟩
    rw [parsed] at taken
    obtain rfl := taken
    have scanned := parseDateTime_eq_true.mp parsed
    obtain ⟨word, rfl, derived⟩ := reads_dateTime zones scanned
    exact ⟨word, date, List.prefix_append word rest, derived⟩
  · rintro ⟨word, date, ⟨rest, rfl⟩, derived⟩
    obtain ⟨date', rest', found⟩ := dateTime_append letters derived rest
    rw [parseDateTime_eq_true.mpr found]

/-- The grammar is followed, what is matched is what the fields say, and a failure changes nothing. -/
theorem parseRFC5322DateTime_grammar (src : List Byte) (out : Date) :
    ((parseRFC5322DateTime src out).1 = true ↔ ∃ word date, word <+: src ∧ DateTimeText obsZones word date) ∧
      (∀ rest date, parseRFC5322DateTime src out = (true, rest, date) →
        ∃ word, src = word ++ rest ∧ DateTimeText obsZones word date) ∧
      ∀ rest date, parseRFC5322DateTime src out = (false, rest, date) → rest = src ∧ date = out := by
  refine ⟨parseDateTime_iff obsZones_lettered src out, ?_, ?_⟩
  · intro rest date parsed
    have scanned := parseDateTime_eq_true.mp parsed
    exact reads_dateTime obsZones scanned
  · intro rest date failed
    exact parseDateTime_false failed

/-- The names of the comment above the table. -/
def documentedZones : List (String × Int) := obsZones.filter fun entry => entry.1 ≠ "JST"

theorem not_documentedZones :
    ¬∀ (src : List Byte) (out : Date), (parseRFC5322DateTime src out).1 = true ↔
      ∃ word date, word <+: src ∧ DateTimeText documentedZones word date := by
  intro all
  have letters : Lettered documentedZones := by
    unfold Lettered
    decide
  have taken : (parseRFC5322DateTime (ascii "1 Jan 2020 00:00 JST") unsetDate).1 = true := by decide +kernel
  have derived := (all (ascii "1 Jan 2020 00:00 JST") unsetDate).mp taken
  rw [← parseDateTime_iff letters (ascii "1 Jan 2020 00:00 JST") unsetDate] at derived
  revert derived
  decide +kernel

end WkcBrowser.Feed
