import Mathlib.Algebra.Group.Int.Defs
import WkcBrowser.Wtf.StringImpl

/-! `ISODateTime`: dates and times as HTML forms write them. A position after the text that a function
reads stands for `end`. Divisions are of numbers that are not negative, or are compared with 0 only. -/

namespace WkcBrowser.Html

open Wtf

def intMax : Int := 2 ^ 31 - 1

/-- What an `int` keeps of a sum. -/
def toInt32 (n : Int) : Int := n.bmod (2 ^ 32)

def gregorianStartYear : Int := 1582
def gregorianStartMonth : Int := 9
def gregorianStartDay : Int := 15

def daysInMonth : List Int := [31, 28, 31, 30, 31, 30, 31, 31, 30, 31, 30, 31]

def isLeapYear (year : Int) : Bool :=
  if year % 4 ≠ 0 then false
  else if year % 400 = 0 then true
  else if year % 100 = 0 then false
  else true

def maxDayOfMonth (year month : Int) : Int :=
  if month ≠ 1 then daysInMonth.getD month.toNat 0
  else if isLeapYear year then 29 else 28

def dayOfWeek (year month day : Int) : Int :=
  let shiftedMonth := month + 2
  let (shiftedMonth, year) :=
    if shiftedMonth ≤ 3 then (shiftedMonth + 12, year - 1) else (shiftedMonth, year)
  let highYear := year / 100
  let lowYear := year % 100
  (day + 13 * shiftedMonth / 5 + lowYear + lowYear / 4 + highYear / 4 + 5 * highYear + 6) % 7

def wednesday : Int := 3
def thursday : Int := 4

structure ISODateTime where
  millisecond : Int := 0
  second : Int := 0
  minute : Int := 0
  hour : Int := 0
  monthDay : Int := 0
  month : Int := 0
  year : Int := 0
  week : Int := 0
deriving DecidableEq

def isASCIIDigit (c : UChar) : Bool := 0x30 ≤ c ∧ c ≤ 0x39

def countDigits (src : Text) (start : Nat) : Nat :=
  ((src.drop start).takeWhile isASCIIDigit).length

/-- The loop of `toInt`. -/
def readDigits (value : Int) : Text → Option Int
  | [] => some value
  | c :: rest =>
    if !isASCIIDigit c then none
    else
      let digit : Int := c.toNat - 0x30
      if value > (intMax - digit) / 10 then none
      else readDigits (value * 10 + digit) rest

def toInt (src : Text) (parseStart parseLength : Nat) : Option Int :=
  if parseStart + parseLength > src.length ∨ parseLength = 0 then none
  else readDigits 0 ((src.drop parseStart).take parseLength)

def charIs (src : Text) (index : Nat) (c : Char) : Bool :=
  src[index]? = some (UInt16.ofNat c.toNat)

/-- A number of two digits within bounds. -/
def twoDigits (src : Text) (index : Nat) (low high : Int) : Option Int :=
  match toInt src index 2 with
  | some value => if value < low ∨ value > high then none else some value
  | none => none

namespace ISODateTime

def maxWeekNumberInYear (d : ISODateTime) : Int :=
  let day := dayOfWeek d.year 0 1
  if day = thursday ∨ (day = wednesday ∧ isLeapYear d.year) then 53 else 52

def parseYear (d : ISODateTime) (src : Text) (start : Nat) : Option (ISODateTime × Nat) :=
  let digitsLength := countDigits src start
  if digitsLength < 4 then none
  else
    match toInt src start digitsLength with
    | none => none
    | some year =>
      if year < gregorianStartYear then none
      else some ({ d with year := year }, start + digitsLength)

/-- The loop of `addDay` that goes on by a number of days. -/
def addDays : Nat → Int → Int → Int → Option (Int × Int × Int)
  | 0, year, month, day => some (year, month, day)
  | days + 1, year, month, day =>
    let day := day + 1
    if day > maxDayOfMonth year month then
      let month := month + 1
      if month ≥ 12 then
        let year := toInt32 (year + 1)
        if year < 0 then none else addDays days year 0 1
      else addDays days year month 1
    else addDays days year month day

def isBeforeGregorianStart (year month day : Int) : Bool :=
  year < gregorianStartYear ||
    (year = gregorianStartYear && month < gregorianStartMonth) ||
    (year = gregorianStartYear && month = gregorianStartMonth && day < gregorianStartDay)

/-- The loop of `addDay` that goes back by a number of days. -/
def subtractDays : Nat → Int → Int → Int → Option (Int × Int × Int)
  | 0, year, month, day => some (year, month, day)
  | days + 1, year, month, day =>
    let day := day - 1
    let (year, month, day) :=
      if day < 1 then
        let month := month - 1
        let (year, month) := if month < 0 then (year - 1, 11) else (year, month)
        (year, month, maxDayOfMonth year month)
      else (year, month, day)
    if isBeforeGregorianStart year month day then none else subtractDays days year month day

def setDate (d : ISODateTime) : Int × Int × Int → ISODateTime
  | (year, month, day) => { d with year := year, month := month, monthDay := day }

def addDay (d : ISODateTime) (dayDiff : Int) : Option ISODateTime :=
  let day := toInt32 (d.monthDay + dayDiff)
  if day > maxDayOfMonth d.year d.month then
    (addDays dayDiff.toNat d.year d.month d.monthDay).map d.setDate
  else if day < 1 then
    (subtractDays (-dayDiff).toNat d.year d.month d.monthDay).map d.setDate
  else some { d with monthDay := day }

/-- The part of `addMinute` for a carry of hours, with the new minute. -/
def addHour (d : ISODateTime) (minute carry : Int) : Option ISODateTime :=
  let hour := d.hour + carry
  if hour > 23 then
    let carry := hour / 24
    (d.addDay carry).map fun d => { d with minute := minute, hour := hour % 24 }
  else if hour < 0 then
    let carry := (23 - hour) / 24
    (d.addDay (-carry)).map fun d => { d with minute := minute, hour := hour + carry * 24 }
  else some { d with minute := minute, hour := hour }

def addMinute (d : ISODateTime) (minute : Int) : Option ISODateTime :=
  let minute := minute + d.minute
  if minute > 59 then d.addHour (minute % 60) (minute / 60)
  -- The field is asked here, not the sum.
  else if d.minute < 0 then
    let carry := (59 - d.minute) / 60
    d.addHour (minute + carry * 60) (-carry)
  else some { d with minute := minute }

def parseTimeZone (d : ISODateTime) (src : Text) (start : Nat) : Option (ISODateTime × Nat) :=
  if charIs src start 'Z' then some (d, start + 1)
  else if !(charIs src start '+' || charIs src start '-') then none
  else
    match twoDigits src (start + 1) 0 23 with
    | none => none
    | some hour =>
      if !charIs src (start + 3) ':' then none
      else
        match twoDigits src (start + 4) 0 59 with
        | none => none
        | some minute =>
          let (hour, minute) := if charIs src start '-' then (-hour, -minute) else (hour, minute)
          (d.addMinute (-(hour * 60 + minute))).map fun d => (d, start + 6)

def parseMonth (d : ISODateTime) (src : Text) (start : Nat) : Option (ISODateTime × Nat) :=
  match d.parseYear src start with
  | none => none
  | some (d, index) =>
    if !charIs src index '-' then none
    else
      match twoDigits src (index + 1) 1 12 with
      | none => none
      | some month =>
        let month := month - 1
        if d.year = gregorianStartYear ∧ month < gregorianStartMonth then none
        else some ({ d with month := month }, index + 3)

def parseDate (d : ISODateTime) (src : Text) (start : Nat) : Option (ISODateTime × Nat) :=
  match d.parseMonth src start with
  | none => none
  | some (d, index) =>
    if index + 2 ≥ src.length then none
    else if !charIs src index '-' then none
    else
      match twoDigits src (index + 1) 1 (maxDayOfMonth d.year d.month) with
      | none => none
      | some day =>
        if d.year = gregorianStartYear ∧ d.month = gregorianStartMonth ∧ day < gregorianStartDay then
          none
        else some ({ d with monthDay := day }, index + 3)

def parseWeek (d : ISODateTime) (src : Text) (start : Nat) : Option (ISODateTime × Nat) :=
  match d.parseYear src start with
  | none => none
  | some (d, index) =>
    if index + 3 ≥ src.length then none
    else if !charIs src index '-' then none
    else if !charIs src (index + 1) 'W' then none
    else
      match twoDigits src (index + 2) 1 d.maxWeekNumberInYear with
      | none => none
      | some week =>
        if d.year ≤ gregorianStartYear then none
        else some ({ d with week := week }, index + 4)

/-- The optional fraction of a second; the milliseconds and the position after it. -/
def parseFraction (src : Text) (index : Nat) : Int × Nat :=
  if charIs src index '.' then
    let digitsLength := countDigits src (index + 1)
    if digitsLength > 0 then
      let millisecond :=
        if digitsLength = 1 then (toInt src (index + 1) 1).getD 0 * 100
        else if digitsLength = 2 then (toInt src (index + 1) 2).getD 0 * 10
        else (toInt src (index + 1) 3).getD 0
      (millisecond, index + 1 + digitsLength)
    else (0, index)
  else (0, index)

/-- The optional seconds. They stay set when they are too large and so are not read. -/
def parseSeconds (src : Text) (index : Nat) : Int × Int × Nat :=
  if index + 2 < src.length ∧ charIs src index ':' then
    match toInt src (index + 1) 2 with
    | none => (0, 0, index)
    | some second =>
      if second ≥ 0 ∧ second ≤ 59 then
        let (millisecond, index) := parseFraction src (index + 3)
        (second, millisecond, index)
      else (second, 0, index)
  else (0, 0, index)

def parseTime (d : ISODateTime) (src : Text) (start : Nat) : Option (ISODateTime × Nat) :=
  match twoDigits src start 0 23 with
  | none => none
  | some hour =>
    if !charIs src (start + 2) ':' then none
    else
      match twoDigits src (start + 3) 0 59 with
      | none => none
      | some minute =>
        let (second, millisecond, index) := parseSeconds src (start + 5)
        some ({ d with
          hour := hour, minute := minute, second := second, millisecond := millisecond }, index)

def parseDateTimeLocal (d : ISODateTime) (src : Text) (start : Nat) :
    Option (ISODateTime × Nat) :=
  match d.parseDate src start with
  | none => none
  | some (d, index) => if !charIs src index 'T' then none else d.parseTime src (index + 1)

def parseDateTime (d : ISODateTime) (src : Text) (start : Nat) : Option (ISODateTime × Nat) :=
  match d.parseDate src start with
  | none => none
  | some (d, index) =>
    if !charIs src index 'T' then none
    else
      match d.parseTime src (index + 1) with
      | none => none
      | some (d, index) => d.parseTimeZone src index

end ISODateTime

end WkcBrowser.Html
