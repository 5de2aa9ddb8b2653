import WkcBrowser.Runtime.EscapeRoundTrips
import WkcBrowser.Url.Components

/-! The escaping of texts in `KURL`, and what undoes it. -/

namespace WkcBrowser.Url

open Lib Wtf WkcBrowser.Runtime

/-- What is written for a byte. -/
def encodeURLByte (c : Byte) : Text :=
  if isBadChar c then
    [0x25, (hexDigits.getD (c >>> 4).toNat 0).toUInt16, (hexDigits.getD (c &&& 0xf).toNat 0).toUInt16]
  else [c.toUInt16]

def encodeWithURLEscapeSequences (characters : Characters) (notEncodedString : Text) : Text :=
  (characters.encodeUTF8 notEncodedString).flatMap encodeURLByte

/-- The codec writes the UTF-8 of well-formed text and reads it back. -/
def Characters.IsUTF8 (characters : Characters) : Prop :=
  ∀ text bytes, isWellFormed text = true → convertUTF16ToUTF8 true text = some bytes →
    characters.encodeUTF8 text = bytes ∧ characters.decodeUTF8 bytes = text

/-! Bytes. -/

theorem encodeURLByte_bad {b : Byte} (bad : isBadChar b = true) (rest : Text) :
    escapedRun (encodeURLByte b ++ rest) = (b :: (escapedRun rest).1, (escapedRun rest).2) := by
  have facts := forall_byte (fun b =>
    isASCIIHexDigit (hexDigits.getD (b >>> 4).toNat 0).toUInt16 &&
      (isASCIIHexDigit (hexDigits.getD (b &&& 0xf).toNat 0).toUInt16 &&
        decide ((hexDigitValue (hexDigits.getD (b >>> 4).toNat 0).toUInt16 <<< 4) |||
          hexDigitValue (hexDigits.getD (b &&& 0xf).toNat 0).toUInt16 = b))) (by decide) b
  simp only [Bool.and_eq_true, decide_eq_true_eq] at facts
  obtain ⟨first, second, value⟩ := facts
  have written : encodeURLByte b = ([0x25, (hexDigits.getD (b >>> 4).toNat 0).toUInt16,
      (hexDigits.getD (b &&& 0xf).toNat 0).toUInt16] : Text) := if_pos bad
  rw [written, List.cons_append, List.cons_append, List.singleton_append, escapedRun, first, second,
    value]
  rfl

/-- The escapes of bytes are one run. -/
theorem escapedRun_escapes {bytes : List Byte} (bad : ∀ b ∈ bytes, isBadChar b = true)
    (rest : Text) : escapedRun (bytes.flatMap encodeURLByte ++ rest) =
      (bytes ++ (escapedRun rest).1, (escapedRun rest).2) := by
  induction bytes with
  | nil => rfl
  | cons b more ih =>
    rw [List.flatMap_cons, List.append_assoc, encodeURLByte_bad (bad b List.mem_cons_self),
      ih fun b' member => bad b' (List.mem_cons_of_mem b member)]
    rfl

theorem escapedRun_other {rest : Text} (other : rest.head? ≠ some 0x25) :
    escapedRun rest = ([], rest) := by
  rw [escapedRun.eq_def]
  split
  · next c c1 c2 more =>
    have differs : c ≠ 0x25 := fun same => other (congrArg some same)
    rw [decide_eq_false differs, Bool.false_and, Bool.false_and]
    rfl
  · rfl

/-! Runs of units. -/

/-- A unit is written as it is. -/
def isPlain (u : UChar) : Bool := u < 0x80 && !isBadChar u.toUInt8

theorem isPlain_unit {u : UChar} (isPlain : isPlain u = true) :
    isHighSurrogate u = false ∧ isLowSurrogate u = false ∧
      (writeCharacter u.toNat).flatMap encodeURLByte = [u] ∧ u ≠ 0x25 := by
  obtain ⟨low, good⟩ := Bool.and_eq_true_iff.mp isPlain
  have bound : u.toNat < 0x80 := UInt16.lt_iff_toNat_lt.mp (of_decide_eq_true low)
  have value : UInt8.ofNat u.toNat = u.toUInt8 := rfl
  have back : u.toUInt8.toUInt16 = u := by
    rw [← UInt16.toNat_inj, UInt8.toNat_toUInt16, UInt16.toNat_toUInt8]
    omega
  have noEscape : u ≠ 0x25 := by
    intro same
    rw [same] at good
    exact absurd good (by decide)
  have noHigh : isHighSurrogate u = false := by
    have first : ¬0xd800 ≤ u := by
      rw [UInt16.le_iff_toNat_le]
      have least : (0xd800 : UInt16).toNat = 0xd800 := rfl
      omega
    rw [isHighSurrogate, decide_eq_false first, Bool.false_and]
  have noLow : isLowSurrogate u = false := by
    have first : ¬0xdc00 ≤ u := by
      rw [UInt16.le_iff_toNat_le]
      have least : (0xdc00 : UInt16).toNat = 0xdc00 := rfl
      omega
    rw [isLowSurrogate, decide_eq_false first, Bool.false_and]
  refine ⟨noHigh, noLow, ?_, noEscape⟩
  rw [writeCharacter, if_pos bound, List.flatMap_singleton, encodeURLByte, value,
    (Bool.not_eq_true' _).mp good, back]
  rfl

theorem isBadChar_high {b : Byte} (high : 0x80 ≤ b.toNat) : isBadChar b = true := by
  have facts := forall_byte (fun b => 0x80 ≤ b.toNat → isBadChar b) (by decide) b
  exact of_decide_eq_true facts high

/-- Plain units are written as they are. -/
theorem escapes_plain {text : Text} (plain : ∀ u ∈ text, isPlain u = true) :
    isWellFormed text = true ∧ ∃ bytes, convertUTF16ToUTF8 true text = some bytes ∧
      bytes.flatMap encodeURLByte = text := by
  induction text with
  | nil => exact ⟨rfl, [], rfl, rfl⟩
  | cons u more ih =>
    obtain ⟨high, low, written, -⟩ := isPlain_unit (plain u List.mem_cons_self)
    obtain ⟨wellFormed, bytes, converted, same⟩ :=
      ih fun u' member => plain u' (List.mem_cons_of_mem u member)
    refine ⟨(isWellFormed_unit high low).trans wellFormed, writeCharacter u.toNat ++ bytes, ?_, ?_⟩
    · rw [convertUTF16ToUTF8_unit high low, converted]
      rfl
    · rw [List.flatMap_append, written, same]
      rfl

/-- The bytes of units that are not plain are all bad. -/
theorem isBadChar_notPlain {text : Text} (wellFormed : isWellFormed text = true)
    (notPlain : ∀ u ∈ text, isPlain u = false) :
    ∀ bytes, convertUTF16ToUTF8 true text = some bytes → ∀ b ∈ bytes, isBadChar b = true := by
  revert notPlain
  refine isWellFormed_induction ?nil ?unit ?pair text wellFormed
  case nil =>
    intro _ bytes converted b member
    rw [← Option.some.inj converted] at member
    exact absurd member List.not_mem_nil
  case unit =>
    intro ch source high low later ih notPlain bytes converted b member
    rw [convertUTF16ToUTF8_unit high low] at converted
    obtain ⟨rest, tail, rfl⟩ := Option.map_eq_some_iff.mp converted
    rcases List.mem_append.mp member with here | there
    · by_cases wide : 0x80 ≤ ch.toNat
      · exact isBadChar_high (writeCharacter_high wide here)
      · have narrow : ch < 0x80 := by
          rw [UInt16.lt_iff_toNat_lt]
          exact Nat.lt_of_not_le wide
        have bad := notPlain ch List.mem_cons_self
        rw [isPlain, decide_eq_true narrow, Bool.true_and, Bool.not_eq_false'] at bad
        rw [writeCharacter, if_pos (by omega), List.mem_singleton] at here
        rw [here]
        exact bad
    · exact ih (fun u inside => notPlain u (List.mem_cons_of_mem ch inside)) rest tail b there
  case pair =>
    intro ch ch2 source high low later ih notPlain bytes converted b member
    rw [convertUTF16ToUTF8_pair high low] at converted
    obtain ⟨rest, tail, rfl⟩ := Option.map_eq_some_iff.mp converted
    rcases List.mem_append.mp member with here | there
    · have wide := (isScalar_pair high low).2
      exact isBadChar_high (writeCharacter_high (by omega) here)
    · exact ih (fun u inside => notPlain u (List.mem_cons_of_mem ch (List.mem_cons_of_mem ch2 inside)))
        rest tail b there

/-- Text is plain units, then units that are not, then text that begins with a plain unit. -/
theorem exists_runs {text : Text} (wellFormed : isWellFormed text = true) :
    ∃ plain run rest, text = plain ++ (run ++ rest) ∧ (∀ u ∈ plain, isPlain u = true) ∧
      (∀ u ∈ run, isPlain u = false) ∧ (∀ u ∈ rest.head?, isPlain u = true) ∧
        (run = [] → rest = []) ∧ isWellFormed run = true ∧ isWellFormed rest = true := by
  have whole : text = text.takeWhile isPlain ++ ((text.dropWhile isPlain).takeWhile (!isPlain ·) ++
      (text.dropWhile isPlain).dropWhile (!isPlain ·)) := by
    rw [List.takeWhile_append_dropWhile, List.takeWhile_append_dropWhile]
  have plain : ∀ u ∈ text.takeWhile isPlain, isPlain u = true := fun u => List.mem_takeWhile_imp
  have notPlain : ∀ u ∈ (text.dropWhile isPlain).takeWhile (!isPlain ·), isPlain u = false := by
    intro u member
    have notPlain := @List.mem_takeWhile_imp _ (!isPlain ·) _ u member
    exact (Bool.not_eq_true' _).mp notPlain
  have later : ∀ u ∈ ((text.dropWhile isPlain).dropWhile (!isPlain ·)).head?, isPlain u = true := by
    intro u member
    have first := List.head?_dropWhile_not (!isPlain ·) (text.dropWhile isPlain)
    rw [Option.mem_def.mp member] at first
    exact (Bool.not_eq_false' _).mp first
  have cut := wellFormed
  rw [whole, isWellFormed_append (escapes_plain plain).1] at cut
  have front := isWellFormed_prefix cut fun u member => (isPlain_unit (later u member)).2.1
  rw [isWellFormed_append front] at cut
  refine ⟨_, _, _, whole, plain, notPlain, later, ?_, front, cut⟩
  intro empty
  have first := List.head?_dropWhile_not isPlain text
  cases left : text.dropWhile isPlain with
  | nil => rfl
  | cons u more =>
    rw [left] at empty first
    rw [List.takeWhile_cons, first] at empty
    cases empty

/-! Decoding. -/

theorem decode_plain {characters : Characters} {plain : Text} (noEscape : ∀ u ∈ plain, u ≠ 0x25)
    (rest : Text) : decodeURLEscapeSequences characters (plain ++ rest) =
      plain ++ decodeURLEscapeSequences characters rest := by
  induction plain with
  | nil => rfl
  | cons u more ih =>
    have none : escapedRun (u :: (more ++ rest)) = ([], u :: (more ++ rest)) :=
      escapedRun_other fun same => noEscape u List.mem_cons_self (Option.some.inj same)
    rw [List.cons_append, decodeURLEscapeSequences]
    dsimp only
    rw [none, if_pos rfl, ih fun u' member => noEscape u' (List.mem_cons_of_mem u member)]
    rfl

/-- A run of escapes is decoded as a whole. -/
theorem decode_run {characters : Characters} {run : List Byte} (nonempty : run ≠ [])
    (bad : ∀ b ∈ run, isBadChar b = true) (decoded : characters.decodeUTF8 run ≠ []) {rest : Text}
    (other : rest.head? ≠ some 0x25) :
    decodeURLEscapeSequences characters (run.flatMap encodeURLByte ++ rest) =
      characters.decodeUTF8 run ++ decodeURLEscapeSequences characters rest := by
  have whole := escapedRun_escapes bad rest
  rw [escapedRun_other other, List.append_nil] at whole
  generalize written : run.flatMap encodeURLByte ++ rest = text at whole
  cases text with
  | nil =>
    rw [escapedRun] at whole
    · exact absurd (Prod.mk.inj whole).1.symm nonempty
    · rintro _ _ _ _ ⟨⟩
  | cons c more =>
    rw [decodeURLEscapeSequences]
    dsimp only
    rw [whole, if_neg nonempty, if_neg decoded]

/-- No escape begins where a plain unit does. -/
theorem head_escapes_plain {rest : Text} {bytes : List Byte}
    (converted : convertUTF16ToUTF8 true rest = some bytes)
    (plain : ∀ u ∈ rest.head?, isPlain u = true) :
    (bytes.flatMap encodeURLByte).head? ≠ some 0x25 := by
  cases rest with
  | nil =>
    rw [← Option.some.inj converted]
    exact Option.some_ne_none _ ∘ Eq.symm
  | cons u more =>
    obtain ⟨high, low, written, noEscape⟩ := isPlain_unit (plain u rfl)
    rw [convertUTF16ToUTF8_unit high low] at converted
    obtain ⟨tail, -, rfl⟩ := Option.map_eq_some_iff.mp converted
    rw [List.flatMap_append, written]
    exact fun same => noEscape (Option.some.inj same)

/-- What is written of well-formed text is read back. -/
theorem decode_escapes {characters : Characters} (isUTF8 : characters.IsUTF8) {text : Text}
    (wellFormed : isWellFormed text = true) {bytes : List Byte}
    (converted : convertUTF16ToUTF8 true text = some bytes) :
    decodeURLEscapeSequences characters (bytes.flatMap encodeURLByte) = text := by
  induction size : text.length using Nat.strong_induction_on generalizing text bytes with
  | h length ih =>
    obtain ⟨plain, run, rest, rfl, arePlain, notPlain, later, ends, runFormed, restFormed⟩ :=
      exists_runs wellFormed
    obtain ⟨plainFormed, plainBytes, plainConverted, plainWritten⟩ := escapes_plain arePlain
    obtain ⟨runBytes, runConverted⟩ := @convertUTF16ToUTF8_isSome true run runFormed
    obtain ⟨restBytes, restConverted⟩ := @convertUTF16ToUTF8_isSome true rest restFormed
    have decoded := (isUTF8 run runBytes runFormed runConverted).2
    rw [convertUTF16ToUTF8_append plainFormed, plainConverted, convertUTF16ToUTF8_append runFormed,
      runConverted, restConverted] at converted
    have parts : plainBytes ++ (runBytes ++ restBytes) = bytes := Option.some.inj converted
    rw [← parts, List.flatMap_append, plainWritten, decode_plain fun u member => (isPlain_unit (arePlain u member)).2.2.2, List.flatMap_append]
    congr 1
    cases nonempty : run with
    | nil =>
      -- No unit is escaped, and the text ends with the plain units.
      rw [nonempty] at runConverted
      rw [ends nonempty] at restConverted
      rw [ends nonempty, ← Option.some.inj runConverted, ← Option.some.inj restConverted]
      simp [decodeURLEscapeSequences]
    | cons u more =>
      have someRun : runBytes ≠ [] := by
        rintro rfl
        rw [(isUTF8 [] [] rfl rfl).2, nonempty] at decoded
        cases decoded
      have someText : characters.decodeUTF8 runBytes ≠ [] := by
        rw [decoded, nonempty]
        exact List.cons_ne_nil u more
      have shorter : rest.length < length := by
        rw [← size, nonempty, List.length_append, List.length_append, List.length_cons]
        omega
      rw [decode_run someRun (isBadChar_notPlain runFormed notPlain runBytes runConverted) someText
        (head_escapes_plain restConverted later), decoded, nonempty,
        ih rest.length shorter restFormed restConverted rfl]

/-- The escapes of well-formed text are undone. -/
theorem decode_encodeWithURLEscapeSequences {characters : Characters} (isUTF8 : characters.IsUTF8)
    {text : Text} (wellFormed : isWellFormed text = true) :
    decodeURLEscapeSequences characters (encodeWithURLEscapeSequences characters text) = text := by
  obtain ⟨bytes, converted⟩ := @convertUTF16ToUTF8_isSome true text wellFormed
  rw [encodeWithURLEscapeSequences, (isUTF8 text bytes wellFormed converted).1]
  exact decode_escapes isUTF8 wellFormed converted

/-! A codec that reads a sequence at a time. -/

def decodeUTF8 : Nat → List Byte → Text
  | 0, _ => []
  | _, [] => []
  | steps + 1, b :: more =>
    let length := max 1 (UTF8SequenceLength b)
    match decodeUTF8Sequence ((b :: more).take length) with
    | none => 0xfffd :: decodeUTF8 steps more
    | some ch => codeUnits ch ++ decodeUTF8 steps ((b :: more).drop length)

def utf8 : Characters where
  decodeUTF8 bytes := decodeUTF8 bytes.length bytes
  encodeUTF8 text := (convertUTF16ToUTF8 true text).getD []
  toLower := toASCIILower

theorem decodeUTF8_writeCharacter {ch : Nat} (scalar : IsScalar ch) (steps : Nat)
    (rest : List Byte) :
    decodeUTF8 (steps + 1) (writeCharacter ch ++ rest) = codeUnits ch ++ decodeUTF8 steps rest := by
  have length := UTF8SequenceLength_writeCharacter scalar
  have decoded := decodeUTF8Sequence_writeCharacter scalar
  cases written : writeCharacter ch with
  | nil => exact absurd written (writeCharacter_ne_nil ch)
  | cons b more =>
    rw [written] at length decoded
    have first : max 1 (UTF8SequenceLength b) = (b :: more).length :=
      (congrArg (max 1) length).trans (Nat.max_eq_right (Nat.succ_pos _))
    have front : (b :: (more ++ rest)).take (b :: more).length = b :: more :=
      @List.take_left _ (b :: more) rest
    have back : (b :: (more ++ rest)).drop (b :: more).length = rest :=
      @List.drop_left _ (b :: more) rest
    simp only [List.cons_append, decodeUTF8, first, front, back, decoded]

theorem decodeUTF8_convert {text : Text} (wellFormed : isWellFormed text = true) :
    ∀ bytes, convertUTF16ToUTF8 true text = some bytes →
      ∀ steps, bytes.length ≤ steps → decodeUTF8 steps bytes = text := by
  have positive : ∀ ch, 0 < (writeCharacter ch).length := fun ch =>
    List.length_pos_iff.mpr (writeCharacter_ne_nil ch)
  refine isWellFormed_induction ?nil ?unit ?pair text wellFormed
  case nil =>
    intro bytes converted steps _
    rw [← Option.some.inj converted]
    cases steps <;> rfl
  case unit =>
    intro ch source high low later ih bytes converted steps enough
    rw [convertUTF16ToUTF8_unit high low] at converted
    obtain ⟨rest, tail, rfl⟩ := Option.map_eq_some_iff.mp converted
    have one := positive ch.toNat
    rw [List.length_append] at enough
    obtain ⟨left, rfl⟩ : ∃ left, steps = left + 1 := ⟨steps - 1, by omega⟩
    rw [decodeUTF8_writeCharacter (isScalar_unit high low).1, codeUnits_unit,
      ih rest tail left (by omega)]
    rfl
  case pair =>
    intro ch ch2 source high low later ih bytes converted steps enough
    rw [convertUTF16ToUTF8_pair high low] at converted
    obtain ⟨rest, tail, rfl⟩ := Option.map_eq_some_iff.mp converted
    have one := positive (surrogatePair ch ch2)
    rw [List.length_append] at enough
    obtain ⟨left, rfl⟩ : ∃ left, steps = left + 1 := ⟨steps - 1, by omega⟩
    rw [decodeUTF8_writeCharacter (isScalar_pair high low).1, codeUnits_pair high low,
      ih rest tail left (by omega)]
    rfl

theorem isUTF8_utf8 : utf8.IsUTF8 := by
  intro text bytes wellFormed converted
  refine ⟨?_, decodeUTF8_convert wellFormed bytes converted _ (Nat.le_refl _)⟩
  show (convertUTF16ToUTF8 true text).getD [] = bytes
  rw [converted]
  rfl

/-- Escaping is undone: of well-formed text by the functions for URLs, and of all text by `unescape`. -/
theorem escapes_round_trip (characters : Characters) (isUTF8 : characters.IsUTF8) :
    (∀ s, isWellFormed s = true →
      (encodeURIComponent s).bind decodeURIComponent = some s ∧
        (encodeURI s).bind decodeURI = some s ∧
        decodeURLEscapeSequences characters (encodeWithURLEscapeSequences characters s) = s) ∧
      ∀ s, unescape (escape s) = s := by
  refine ⟨fun s wellFormed => ⟨?_, ?_, ?_⟩, unescape_escape⟩
  · exact decode_encode paired_URIComponent true wellFormed
  · exact decode_encode paired_URI true wellFormed
  · exact decode_encodeWithURLEscapeSequences isUTF8 wellFormed

theorem escapes_round_trip_percent :
    decodeURLEscapeSequences utf8
      (encodeWithURLEscapeSequences utf8 [0x35, 0x25, 0x34, 0x31, 0xd83d, 0xde00]) =
      [0x35, 0x25, 0x34, 0x31, 0xd83d, 0xde00] := by
  have formed : isWellFormed [0x35, 0x25, 0x34, 0x31, 0xd83d, 0xde00] = true := by decide
  exact ((escapes_round_trip utf8 isUTF8_utf8).1 _ formed).2.2

end WkcBrowser.Url
