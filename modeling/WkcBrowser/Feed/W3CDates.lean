import WkcBrowser.Feed.Words

/-! What `parseW3CDateTime` makes of the texts that `parseRFC3339DateTime` takes. -/

namespace WkcBrowser.Feed

open Lib Lib.Scan Wtf

theorem parseDateTime_eq_true {scan : Scan Byte Date} {src rest : List Byte} {out date : Date} :
    parseDateTime scan src out = (true, rest, date) ↔ scan src = (some date, rest) := by
  unfold parseDateTime
  rcases scan src with ⟨_ | found, s⟩
  · simp
  · simp [and_comm]

section
variable {src rest : List Byte}

theorem parseDashed_eq_some {inRange : Nat → Bool} {value : Nat} {middle : List Byte}
    (dash : parseRFC5234Octet 0x2d src = (some (), middle))
    (digits : parseRFC5234Digits 2 2 middle = (some value, rest)) (holds : inRange value = true) :
    parseDashed inRange src = (some value, rest) := by
  unfold parseDashed
  rw [bind_of_some dash, bind_of_some digits, bind_of_some (guard_of_holds holds _)]
  rfl

/-- The pieces of a date of RFC3339: what the parsers of the year, the month and the day find. -/
theorem fullDate_pieces {date : Nat × Nat × Nat} (found : parseRFC3339FullDate src = (some date, rest)) :
    ∃ afterYear afterMonth, parseRFC5234Digits 4 4 src = (some date.1, afterYear) ∧ 0 < date.1 ∧
      parseDashed (fun month => decide (1 ≤ month ∧ month ≤ 12)) afterYear = (some date.2.1, afterMonth) ∧
      parseDashed (fun mday => decide (1 ≤ mday ∧ mday ≤ lastDayOfMonth date.1 date.2.1)) afterMonth =
        (some date.2.2, rest) := by
  rw [parseRFC3339FullDate, attempt_eq_some] at found
  simp only [bind_eq_some, guard_eq_some, pure_eq_some] at found
  obtain ⟨year, afterYear, yearRead, _, _, ⟨positive, rfl⟩, _, s1, dash, month, afterMonth, monthRead, _, _,
    ⟨isMonth, rfl⟩, _, s2, dash', mday, _, mdayRead, _, _, ⟨isDay, rfl⟩, rfl, rfl⟩ := found
  exact ⟨_, _, yearRead, positive, parseDashed_eq_some dash monthRead (decide_eq_true isMonth),
    parseDashed_eq_some dash' mdayRead (decide_eq_true isDay)⟩

/-- A time of RFC3339 is one of W3C with seconds. -/
theorem w3cTime_of_partialTime {time : Nat × Nat × Nat}
    (found : parseRFC3339PartialTime src = (some time, rest)) :
    parseW3CTime src =
      (some { type := .ymdhmsz, hour := time.1, minute := time.2.1, second := time.2.2 }, rest) := by
  rw [parseRFC3339PartialTime, bind_eq_some] at found
  obtain ⟨_, afterTime, whole, found⟩ := found
  obtain ⟨u, s, secfrac, found⟩ := bind_eq_some.mp found
  obtain ⟨rfl, rfl⟩ := pure_eq_some.mp found
  rw [attempt_eq_some] at whole
  simp only [bind_eq_some, guard_eq_some, pure_eq_some] at whole
  obtain ⟨hour, s1, hourRead, _, _, ⟨isHour, rfl⟩, _, s2, colon, minute, s3, minuteRead, _, _,
    ⟨isMinute, rfl⟩, _, s4, colon', second, s5, secondRead, _, _, ⟨isSecond, rfl⟩, rfl, rfl⟩ := whole
  have hourMinute : (attempt do
      let hour ← parseRFC5234Digits 2 2
      guard (hour ≤ 23)
      parseRFC5234Octet 0x3a
      let minute ← parseRFC5234Digits 2 2
      guard (minute ≤ 59)
      pure (hour, minute) : Scan Byte (Nat × Nat)) src = (some (hour, minute), s3) := by
    rw [attempt_eq_some, bind_of_some hourRead, bind_of_some (guard_of_holds isHour _),
      bind_of_some colon, bind_of_some minuteRead, bind_of_some (guard_of_holds isMinute _)]
    rfl
  have withSecond : (optional <| attempt do
      parseRFC5234Octet 0x3a
      let second ← parseRFC5234Digits 2 2
      guard (second ≤ 60)
      pure second : Scan Byte (Option Nat)) s3 = (some (some second), s5) := by
    rw [optional_eq_some, attempt_eq_some, bind_of_some colon', bind_of_some secondRead,
      bind_of_some (guard_of_holds isSecond _)]
    rfl
  rw [parseW3CTime, bind_of_some hourMinute]
  dsimp only
  rw [bind_of_some withSecond, bind_of_some secfrac]
  rfl

end

/-! The time takes at least one byte. -/

theorem advances_bind {α β : Type} {p : Scan Byte α} {next : α → Scan Byte β}
    (here : p.Reads fun _ _ => True) (behind : ∀ a, (next a).Reads fun _ _ => True) :
    (p >>= next).Reads fun _ _ => True :=
  (here.bind behind).mono fun _ _ _ => trivial

theorem advances {α : Type} {p : Scan Byte α} {grammar : List Byte → α → Prop} (reads : p.Reads grammar) :
    p.Reads fun _ _ => True :=
  reads.mono fun _ _ _ => trivial

theorem advances_secfrac : skipSecfrac.Reads fun _ _ => True := by
  have scanned : (attempt do
      parseRFC5234Octet 0x2e
      let _ ← parseRFC5234Digit
      let _ ← parseDigits : Scan Byte PUnit).Reads fun _ _ => True :=
    (advances_bind (advances reads_octet) fun _ => advances_bind reads_digit fun _ =>
      advances_bind (advances reads_parseDigits) fun _ => advances reads_pure).attempt
  exact advances_bind (advances (scanned.optional restores_attempt)) fun _ => advances reads_pure

theorem advances_sign : parseSign.Reads fun _ _ => True :=
  advances (Reads.orElse (advances_bind (advances reads_octet) fun _ => advances reads_pure)
    (restores_octet.bind_pure _) (advances_bind (advances reads_octet) fun _ => advances reads_pure))

theorem advances_offset : parseRFC3339TimeOffset.Reads fun _ _ => True := by
  have utc : (do parseRFC5234OctetsNocase (ascii "Z"); pure 0 : Scan Byte Int).Reads fun _ _ => True :=
    advances_bind (advances reads_nocase) fun _ => advances reads_pure
  have numeric : (do
      let sign ← parseSign
      let hour ← parseRFC5234Digits 2 2
      guard (hour ≤ 23)
      parseRFC5234Octet 0x3a
      let minute ← parseRFC5234Digits 2 2
      guard (minute ≤ 59)
      pure (sign * ((60 * hour + minute : Nat) : Int)) : Scan Byte Int).Reads fun _ _ => True :=
    advances_bind advances_sign fun _ => advances_bind (advances reads_digits) fun _ =>
      advances_bind (advances reads_guard) fun _ => advances_bind (advances reads_octet) fun _ =>
      advances_bind (advances reads_digits) fun _ => advances_bind (advances reads_guard) fun _ =>
      advances reads_pure
  exact advances (Reads.orElse utc (restores_nocase.bind_pure _) numeric.attempt)

theorem advances_partialTime : parseRFC3339PartialTime.Reads fun _ _ => True := by
  refine advances_bind (Reads.attempt ?_) fun _ => advances_bind advances_secfrac fun _ => advances reads_pure
  exact advances_bind (advances reads_digits) fun _ => advances_bind (advances reads_guard) fun _ =>
    advances_bind (advances reads_octet) fun _ => advances_bind (advances reads_digits) fun _ =>
    advances_bind (advances reads_guard) fun _ => advances_bind (advances reads_octet) fun _ =>
    advances_bind (advances reads_digits) fun _ => advances_bind (advances reads_guard) fun _ =>
    advances reads_pure

/-- Both dates are the same, but `parseW3CDateTime` leaves the pointer in front of the time. -/
theorem parseW3CDateTime_of_RFC3339 (src : List Byte) (out out' : Date) (rest : List Byte) (date : Date)
    (parsed : parseRFC3339DateTime src out = (true, rest, date)) :
    parseW3CDateTime src out' ≠ (true, rest, date) ∧
      ∃ rest', parseW3CDateTime src out' = (true, rest', date) ∧ rest <:+ rest' ∧ rest ≠ rest' := by
  have scanned := parseDateTime_eq_true.mp parsed
  rw [scanRFC3339DateTime] at scanned
  obtain ⟨_, begin, skipped, scanned⟩ := bind_eq_some.mp scanned
  obtain ⟨⟨year, month, mday⟩, afterDate, dateRead, scanned⟩ := bind_eq_some.mp scanned
  obtain ⟨_, afterMark, mark, scanned⟩ := bind_eq_some.mp scanned
  obtain ⟨⟨⟨hour, minute, second⟩, offset⟩, _, timeRead, scanned⟩ := bind_eq_some.mp scanned
  obtain ⟨rfl, rfl⟩ := pure_eq_some.mp scanned
  obtain ⟨afterYear, afterMonth, yearRead, positive, monthRead, mdayRead⟩ := fullDate_pieces dateRead
  rw [parseRFC3339FullTime, attempt_eq_some] at timeRead
  obtain ⟨time, beforeOffset, partialRead, offsetRead⟩ := bind_eq_some.mp timeRead
  obtain ⟨_, ending, offsetRead, same⟩ := bind_eq_some.mp offsetRead
  obtain ⟨same, rfl⟩ := pure_eq_some.mp same
  cases same
  have scanYear : (do
      skipBWS
      let year ← parseRFC5234Digits 4 4
      guard (year ≠ 0)
      pure year : Scan Byte Nat) src = (some year, afterYear) := by
    rw [bind_of_some skipped, bind_of_some yearRead, bind_of_some (guard_of_holds (Nat.ne_of_gt positive) _)]
    rfl
  have scanTime : (do
      parseRFC5234OctetsNocase (ascii "T")
      let time ← parseW3CTime
      let zone ← parseW3CZone
      pure (time, zone) : Scan Byte (TimeOfDay × Int)) afterDate =
        (some ({ type := .ymdhmsz, hour, minute, second }, offset), ending) := by
    rw [bind_of_some mark, bind_of_some (w3cTime_of_partialTime partialRead),
      bind_of_some (show parseW3CZone beforeOffset = _ from offsetRead)]
    rfl
  have whole : parseW3CDateTime src out' =
      (true, afterDate, dateOf (year, month, mday) { type := .ymdhmsz, hour, minute, second } offset) := by
    unfold parseW3CDateTime
    dsimp only
    rw [scanYear]
    dsimp only
    rw [monthRead]
    dsimp only
    rw [mdayRead]
    dsimp only
    rw [scanTime]
    rfl
  have behind : ending <:+ afterMark := by
    obtain ⟨first, rfl, -⟩ := advances_partialTime partialRead
    obtain ⟨second, rfl, -⟩ := advances_offset offsetRead
    exact (List.suffix_append second ending).trans (List.suffix_append first _)
  have shorter : ending.length < afterDate.length := by
    obtain ⟨word, rfl, named⟩ := reads_nocase mark
    have one : word.length = 1 := by
      have lengths := congrArg List.length named
      rwa [List.length_map, List.length_map] at lengths
    have le := behind.length_le
    rw [List.length_append]
    omega
  have different : ending ≠ afterDate := fun same => absurd shorter (by rw [same]; exact Nat.lt_irrefl _)
  refine ⟨?_, afterDate, whole, ?_, different⟩
  · rw [whole]
    intro same
    exact different (Prod.mk.inj (Prod.mk.inj same).2).1.symm
  · obtain ⟨word, rfl, -⟩ := reads_nocase mark
    exact behind.trans (List.suffix_append word afterMark)

/-- The fields of a date before a call. -/
def unsetDate : Date := { type := .y, year := 0, mon := 0, mday := 0, hour := 0, min := 0, sec := 0, zone := 0 }

/-- A moment of the second of January in the year 2000. -/
def january : Date :=
  { type := .ymdhmsz, year := 2000, mon := 0, mday := 2, hour := 3, min := 4, sec := 5, zone := 0 }

theorem parseW3CDateTime_of_RFC3339_january :
    parseW3CDateTime (ascii "2000-01-02T03:04:05Z") unsetDate ≠ (true, [], january) ∧
      ∃ rest', parseW3CDateTime (ascii "2000-01-02T03:04:05Z") unsetDate = (true, rest', january) ∧
        [] <:+ rest' ∧ [] ≠ rest' :=
  parseW3CDateTime_of_RFC3339 (ascii "2000-01-02T03:04:05Z") unsetDate unsetDate [] january
    (by decide)

theorem not_parseW3CDateTime :
    ¬∀ (src : List Byte) (out out' : Date) (rest : List Byte) (date : Date),
      parseRFC3339DateTime src out = (true, rest, date) → parseW3CDateTime src out' = (true, rest, date) := by
  intro all
  have extended := all (ascii "2000-01-02T03:04:05Z") unsetDate unsetDate [] january (by decide)
  exact absurd extended (by decide)

end WkcBrowser.Feed
