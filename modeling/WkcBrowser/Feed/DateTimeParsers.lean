import WkcBrowser.Lib.Scan
import WkcBrowser.Wtf.StringImpl

/-! The date-time parsers of `WKCRSSParser`. Each moves the pointer into a text that ends with a null
byte, here the list of the bytes from the pointer on. -/

namespace WkcBrowser.Feed

open Lib Lib.Scan Wtf

/-- `EType_*` -/
inductive DateType where
  | y
  | ym
  | ymd
  | ymdhmz
  | ymdhmsz
deriving DecidableEq

/-- The fields of `m_tm` that are set, and the zone in minutes. -/
structure Date where
  type : DateType
  year : Int
  mon : Int
  mday : Int
  hour : Int
  min : Int
  sec : Int
  zone : Int
deriving DecidableEq

def lastDayOfMonth (year month : Nat) : Nat :=
  if 12 < month then 0
  else
    let leap := year % 4 = 0 ∧ year % 100 ≠ 0 ∨ year % 400 = 0
    if leap then [0, 31, 29, 31, 30, 31, 30, 31, 31, 30, 31, 30, 31].getD month 0
    else [0, 31, 28, 31, 30, 31, 30, 31, 31, 30, 31, 30, 31].getD month 0

/-! RFC5234 -/

def isASCIIDigit (c : Byte) : Bool := 0x30 ≤ c && c ≤ 0x39

def toASCIILower (c : Byte) : Byte := if 0x41 ≤ c ∧ c ≤ 0x5a then c + 0x20 else c

/-- The number that digits stand for. -/
def decimal (digits : List Byte) : Nat := digits.foldl (fun value c => 10 * value + (c.toNat - 0x30)) 0

def parseRFC5234Octet (ref : Byte) : Scan Byte Unit := fun src =>
  if src.head? = some ref then (some (), src.tail) else (none, src)

/-- The bytes behind the given ones, which are read in any case. -/
def octetsNocase : List Byte → List Byte → Option (List Byte)
  | [], s => some s
  | _ :: _, [] => none
  | ref :: refs, c :: s => if toASCIILower c = toASCIILower ref then octetsNocase refs s else none

def parseRFC5234OctetsNocase (ref : List Byte) : Scan Byte Unit := fun src =>
  match octetsNocase ref src with
  | some s => (some (), s)
  | none => (none, src)

def parseRFC5234Digit : Scan Byte Nat := fun src =>
  match src with
  | [] => (none, [])
  | c :: s => if isASCIIDigit c then (some (c.toNat - 0x30), s) else (none, c :: s)

def parseRFC5234Digits (m n : Nat) : Scan Byte Nat := fun src =>
  let digits := (src.take n).takeWhile isASCIIDigit
  if m ≤ digits.length then (some (decimal digits), src.drop digits.length) else (none, src)

/-- HTAB, LF, CR and SP. -/
def isWhite (c : Byte) : Bool := c = 0x09 || c = 0x0a || c = 0x0d || c = 0x20

def parseBWS : Scan Byte Unit := fun src =>
  if src.head?.any isWhite then (some (), src.dropWhile isWhite) else (none, src)

/-- `parseBWS` whose result is not looked at. -/
def skipBWS : Scan Byte Unit := do
  let _ ← optional parseBWS

/-! RFC5322 -/

def obsZones : List (String × Int) :=
  [("UT", 0), ("GMT", 0),
   ("EST", -500), ("EDT", -400),
   ("CST", -600), ("CDT", -500),
   ("MST", -700), ("MDT", -600),
   ("PST", -800), ("PDT", -700),
   ("JST", 900),
   ("A", 100), ("B", 200), ("C", 300), ("D", 400),
   ("E", 500), ("F", 600), ("G", 700), ("H", 800),
   ("I", 900), ("K", 1000), ("L", 1100), ("M", 1200),
   ("N", -100), ("O", -200), ("P", -300), ("Q", -400),
   ("R", -500), ("S", -600), ("T", -700), ("U", -800),
   ("V", -900), ("W", -1000), ("X", -1100), ("Y", -1200),
   ("Z", 0)]

/-- Hours and minutes, four digits with a sign, in minutes. Division is towards zero. -/
def zoneMinutes (zone : Int) : Int := 60 * zone.tdiv 100 + zone.tmod 100

section
variable (zones : List (String × Int))

def parseRFC5322ObsZone : Scan Byte Int :=
  firstOf (zones.map fun (symbol, zone) => do
    parseRFC5234OctetsNocase (ascii symbol)
    pure (zoneMinutes zone))

/-- The sign of a numeric zone. -/
def parseSign : Scan Byte Int :=
  orElse (do parseRFC5234Octet 0x2b; pure 1) (do parseRFC5234Octet 0x2d; pure (-1))

def parseRFC5322Zone : Scan Byte Int :=
  orElse
    (attempt do
      let sign ← parseSign
      let zone ← parseRFC5234Digits 4 4
      guard (zone ≤ 9959)
      pure (sign * ((60 * (zone / 100) + zone % 100 : Nat) : Int)))
    (parseRFC5322ObsZone zones)

/-- The fields of a time of day. -/
structure TimeOfDay where
  type : DateType
  hour : Nat
  minute : Nat
  second : Nat

def parseRFC5322TimeOfDay : Scan Byte TimeOfDay := do
  let (hour, minute) ← attempt do
    skipBWS
    let hour ← parseRFC5234Digits 2 2
    guard (hour ≤ 23)
    skipBWS
    parseRFC5234Octet 0x3a
    skipBWS
    let minute ← parseRFC5234Digits 2 2
    guard (minute ≤ 59)
    pure (hour, minute)
  let second ← optional <| attempt do
    skipBWS
    parseRFC5234Octet 0x3a
    skipBWS
    let second ← parseRFC5234Digits 2 2
    guard (second ≤ 60)
    pure second
  skipBWS
  pure
    { type := if second.isSome then .ymdhmsz else .ymdhmz
      hour
      minute
      second := second.getD 0 }

def parseRFC5322Time : Scan Byte (TimeOfDay × Int) :=
  attempt do
    let time ← parseRFC5322TimeOfDay
    let zone ← parseRFC5322Zone zones
    pure (time, zone)

/-- All digits there are. -/
def parseDigits : Scan Byte (List Byte) := fun src =>
  (some (src.takeWhile isASCIIDigit), src.dropWhile isASCIIDigit)

/-- Years of less than four digits are those from 1950 on. -/
def fullYear (count year : Nat) : Nat :=
  if count < 4 then if year ≤ 49 then year + 2000 else year + 1900 else year

def parseRFC5322Year : Scan Byte Nat :=
  attempt do
    parseBWS
    let digits ← parseDigits
    guard (2 ≤ digits.length ∧ digits.length ≤ 9)
    let year := fullYear digits.length (decimal digits)
    guard (0 < year)
    parseBWS
    pure year

def monthNames : List String :=
  ["Jan", "Feb", "Mar", "Apr", "May", "Jun", "Jul", "Aug", "Sep", "Oct", "Nov", "Dec"]

def parseRFC5322Month : Scan Byte Nat :=
  firstOf (monthNames.zipIdx.map fun (name, i) => do
    parseRFC5234OctetsNocase (ascii name)
    pure (i + 1))

def parseRFC5322Date : Scan Byte (Nat × Nat × Nat) :=
  attempt do
    skipBWS
    let day ← parseRFC5234Digits 1 2
    parseBWS
    let month ← parseRFC5322Month
    let year ← parseRFC5322Year
    guard (1 ≤ day ∧ day ≤ lastDayOfMonth year month)
    pure (year, month, day)

def dayNames : List String := ["Mon", "Tue", "Wed", "Thu", "Fri", "Sat", "Sun"]

def parseRFC5322DayOfWeek : Scan Byte Nat :=
  attempt do
    skipBWS
    let day ← firstOf (dayNames.zipIdx.map fun (name, i) => do
      parseRFC5234OctetsNocase (ascii name)
      pure i)
    skipBWS
    pure day

/-- The fields of a date and a time. -/
def dateOf (date : Nat × Nat × Nat) (time : TimeOfDay) (zone : Int) : Date where
  type := time.type
  year := date.1
  mon := (date.2.1 - 1 : Nat)
  mday := date.2.2
  hour := time.hour
  min := time.minute
  sec := time.second
  zone := zone

def scanRFC5322DateTime : Scan Byte Date := do
  let _ ← optional <| attempt do
    let _ ← parseRFC5322DayOfWeek
    parseRFC5234Octet 0x2c
  let date ← parseRFC5322Date
  let (time, zone) ← parseRFC5322Time zones
  pure (dateOf date time zone)

end

/-- What is returned, the pointer and the date behind the call. -/
def parseDateTime (scan : Scan Byte Date) (src : List Byte) (outDate : Date) : Bool × List Byte × Date :=
  match scan src with
  | (some date, s) => (true, s, date)
  | (none, _) => (false, src, outDate)

def parseRFC5322DateTime : List Byte → Date → Bool × List Byte × Date :=
  parseDateTime (scanRFC5322DateTime obsZones)

/-! RFC3339 -/

/-- A point and digits, if they are there. -/
def skipSecfrac : Scan Byte Unit := do
  let _ ← optional <| attempt do
    parseRFC5234Octet 0x2e
    let _ ← parseRFC5234Digit
    let _ ← parseDigits

def parseRFC3339PartialTime : Scan Byte (Nat × Nat × Nat) := do
  let time ← attempt do
    let hour ← parseRFC5234Digits 2 2
    guard (hour ≤ 23)
    parseRFC5234Octet 0x3a
    let minute ← parseRFC5234Digits 2 2
    guard (minute ≤ 59)
    parseRFC5234Octet 0x3a
    let second ← parseRFC5234Digits 2 2
    guard (second ≤ 60)
    pure (hour, minute, second)
  skipSecfrac
  pure time

def parseRFC3339TimeOffset : Scan Byte Int :=
  orElse (do parseRFC5234OctetsNocase (ascii "Z"); pure 0)
    (attempt do
      let sign ← parseSign
      let hour ← parseRFC5234Digits 2 2
      guard (hour ≤ 23)
      parseRFC5234Octet 0x3a
      let minute ← parseRFC5234Digits 2 2
      guard (minute ≤ 59)
      pure (sign * ((60 * hour + minute : Nat) : Int)))

def parseRFC3339FullTime : Scan Byte ((Nat × Nat × Nat) × Int) :=
  attempt do
    let time ← parseRFC3339PartialTime
    let offset ← parseRFC3339TimeOffset
    pure (time, offset)

def parseRFC3339FullDate : Scan Byte (Nat × Nat × Nat) :=
  attempt do
    let year ← parseRFC5234Digits 4 4
    guard (0 < year)
    parseRFC5234Octet 0x2d
    let month ← parseRFC5234Digits 2 2
    guard (1 ≤ month ∧ month ≤ 12)
    parseRFC5234Octet 0x2d
    let mday ← parseRFC5234Digits 2 2
    guard (1 ≤ mday ∧ mday ≤ lastDayOfMonth year month)
    pure (year, month, mday)

def scanRFC3339DateTime : Scan Byte Date := do
  skipBWS
  let date ← parseRFC3339FullDate
  parseRFC5234OctetsNocase (ascii "T")
  let ((hour, minute, second), offset) ← parseRFC3339FullTime
  pure (dateOf date { type := .ymdhmsz, hour, minute, second } offset)

def parseRFC3339DateTime : List Byte → Date → Bool × List Byte × Date := parseDateTime scanRFC3339DateTime

/-! W3C NOTE-datetime -/

def parseW3CZone : Scan Byte Int := parseRFC3339TimeOffset

def parseW3CTime : Scan Byte TimeOfDay := do
  let (hour, minute) ← attempt do
    let hour ← parseRFC5234Digits 2 2
    guard (hour ≤ 23)
    parseRFC5234Octet 0x3a
    let minute ← parseRFC5234Digits 2 2
    guard (minute ≤ 59)
    pure (hour, minute)
  let second ← optional <| attempt do
    parseRFC5234Octet 0x3a
    let second ← parseRFC5234Digits 2 2
    guard (second ≤ 60)
    pure second
  skipSecfrac
  pure
    { type := if second.isSome then .ymdhmsz else .ymdhmz
      hour
      minute
      second := second.getD 0 }

/-- A dash and two digits in the given range. -/
def parseDashed (inRange : Nat → Bool) : Scan Byte Nat := do
  parseRFC5234Octet 0x2d
  let value ← parseRFC5234Digits 2 2
  guard (inRange value)
  pure value

/-- The parts of a date that come one after another: the pointer is moved behind each but the last. -/
def parseW3CDateTime (src : List Byte) (outDate : Date) : Bool × List Byte × Date :=
  let scanYear : Scan Byte Nat := do
    skipBWS
    let year ← parseRFC5234Digits 4 4
    guard (year ≠ 0)
    pure year
  match scanYear src with
  | (none, _) => (false, src, outDate)
  | (some year, s) =>
    let date : Date := { type := .y, year, mon := 0, mday := 0, hour := 0, min := 0, sec := 0, zone := 0 }
    match parseDashed (fun month => decide (1 ≤ month ∧ month ≤ 12)) s with
    | (none, _) => (true, s, date)
    | (some month, s) =>
      let date := { date with type := .ym, mon := (month - 1 : Nat) }
      match parseDashed (fun mday => decide (1 ≤ mday ∧ mday ≤ lastDayOfMonth year month)) s with
      | (none, _) => (true, s, date)
      | (some mday, s) =>
        let date := { date with type := .ymd, mday := mday }
        let scanTime : Scan Byte (TimeOfDay × Int) := do
          parseRFC5234OctetsNocase (ascii "T")
          let time ← parseW3CTime
          let zone ← parseW3CZone
          pure (time, zone)
        match scanTime s with
        | (none, _) => (true, s, date)
        | (some (time, zone), _) =>
          (true, s, { date with
            type := time.type, hour := time.hour, min := time.minute, sec := time.second, zone })

end WkcBrowser.Feed
