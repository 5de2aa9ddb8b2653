import WkcBrowser.Runtime.GlobalFunctions

/-! What the escaping functions of the global object write is read back by the functions that undo
it. -/

namespace WkcBrowser.Runtime

open Lib Wtf

/-! Escaped bytes. -/

/-- What `encode` writes for a byte. -/
def encodeByte (doNotEscape : List Byte) (c : Byte) : Text :=
  if c ≠ 0 && c ∈ doNotEscape then [c.toUInt16] else percentByte c

theorem hexDigits_byte (b : Byte) : isASCIIHexDigit (hexDigit (b >>> 4)) = true ∧
    isASCIIHexDigit (hexDigit (b &&& 0xf)) = true ∧ hexDigit (b >>> 4) ≠ 0x75 ∧
      convertHex (hexDigit (b >>> 4)) (hexDigit (b &&& 0xf)) = b := by
  have facts := forall_byte (fun b => isASCIIHexDigit (hexDigit (b >>> 4)) &&
    (isASCIIHexDigit (hexDigit (b &&& 0xf)) && (decide (hexDigit (b >>> 4) ≠ 0x75) &&
      decide (convertHex (hexDigit (b >>> 4)) (hexDigit (b &&& 0xf)) = b)))) (by decide) b
  simpa only [Bool.and_eq_true, decide_eq_true_eq] using facts

theorem escapedByte_percentByte (b : Byte) (rest : Text) :
    escapedByte (percentByte b ++ rest) = some b := by
  obtain ⟨first, second, -, value⟩ := hexDigits_byte b
  have unfolded : percentByte b ++ rest =
      0x25 :: hexDigit (b >>> 4) :: hexDigit (b &&& 0xf) :: rest := rfl
  rw [unfolded, escapedByte, first, second, value]
  rfl

theorem escapedBytes_percentBytes (bytes : List Byte) (rest : Text) :
    escapedBytes bytes.length (bytes.flatMap percentByte ++ rest) = some bytes := by
  induction bytes with
  | nil => rfl
  | cons b more ih =>
    have apart : (b :: more).flatMap percentByte ++ rest =
        percentByte b ++ (more.flatMap percentByte ++ rest) := by
      rw [List.flatMap_cons, List.append_assoc]
    have after : (percentByte b ++ (more.flatMap percentByte ++ rest)).drop 3 =
        more.flatMap percentByte ++ rest := rfl
    rw [apart, List.length_cons, escapedBytes, escapedByte_percentByte, after, ih]
    rfl

theorem length_percentBytes (bytes : List Byte) :
    (bytes.flatMap percentByte).length = bytes.length * 3 := by
  induction bytes with
  | nil => rfl
  | cons b more ih =>
    rw [List.flatMap_cons, List.length_append, ih, List.length_cons]
    show 3 + more.length * 3 = (more.length + 1) * 3
    omega

/-- The escapes of a character are read as one sequence. -/
theorem escapedSequence_writeCharacter {ch : Nat} (scalar : IsScalar ch) (rest : Text) :
    escapedSequence ((writeCharacter ch).flatMap percentByte ++ rest) =
      some ((writeCharacter ch).length * 3, ch) := by
  have length := UTF8SequenceLength_writeCharacter scalar
  have bytes := escapedBytes_percentBytes (writeCharacter ch) rest
  have decoded := decodeUTF8Sequence_writeCharacter scalar
  have whole := length_percentBytes (writeCharacter ch)
  have inRange : ¬ch ≥ 0x110000 := by
    unfold IsScalar at scalar
    omega
  cases written : writeCharacter ch with
  | nil => exact absurd written (writeCharacter_ne_nil ch)
  | cons b0 more =>
    rw [written] at length bytes decoded whole
    have first : escapedByte ((b0 :: more).flatMap percentByte ++ rest) = some b0 := by
      rw [List.flatMap_cons, List.append_assoc, escapedByte_percentByte]
    have enough : ((b0 :: more).length ≠ 0 &&
        (b0 :: more).length * 3 ≤ ((b0 :: more).flatMap percentByte ++ rest).length) = true := by
      rw [List.length_append, whole]
      simp
    rw [List.getD_cons_zero] at length
    rw [escapedSequence, first]
    simp only [length]
    rw [if_pos enough, bytes]
    simp only [decoded, if_neg inRange]

/-! Characters. -/

/-- The code units of a character. -/
def codeUnits (ch : Nat) : Text :=
  if ch ≥ 0x10000 then
    [.ofNat (0xd800 ||| ((ch - 0x10000) >>> 10)), .ofNat (0xdc00 ||| ((ch - 0x10000) &&& 0x3ff))]
  else [.ofNat ch]

/-- The sets that `encode` and `decode` are given in a pair of functions. -/
structure Paired (doNotEscape doNotUnescape : List Byte) : Prop where
  sub : doNotUnescape ⊆ doNotEscape
  plain : ∀ c ∈ doNotEscape, c.toNat < 0x80 ∧ c ≠ 0x25

theorem decodeFrom_nil (doNotUnescape : List Byte) (strict : Bool) (steps : Nat) :
    decodeFrom doNotUnescape strict steps [] = some [] := by
  cases steps <;> rfl

theorem mayUnescape_high {doNotUnescape : List Byte} {u : UChar} (high : u ≥ 128) :
    mayUnescape doNotUnescape u = true := by
  rw [mayUnescape, decide_eq_true high, Bool.or_true, Bool.true_or]

theorem decodeFrom_literal {doNotUnescape : List Byte} {strict : Bool} {steps : Nat} {c : UChar}
    {more : Text} (noEscape : c ≠ 0x25) : decodeFrom doNotUnescape strict (steps + 1) (c :: more) =
      (decodeFrom doNotUnescape strict steps more).map (c :: ·) := by
  rw [decodeFrom]
  simp only [if_neg noEscape]

/-- A sequence that may be unescaped is replaced by the units of its character. -/
theorem decodeFrom_sequence {doNotUnescape : List Byte} {strict : Bool} {steps : Nat} {more : Text}
    {charLen character : Nat} (found : escapedSequence (0x25 :: more) = some (charLen, character))
    (allowed : character < 0x10000 → mayUnescape doNotUnescape (.ofNat character) = true) :
    decodeFrom doNotUnescape strict (steps + 1) (0x25 :: more) =
      (decodeFrom doNotUnescape strict steps ((0x25 :: more).drop charLen)).map
        (codeUnits character ++ ·) := by
  rw [decodeFrom]
  simp only [↓reduceIte, found]
  by_cases wide : character ≥ 0x10000
  · have may : mayUnescape doNotUnescape
        (.ofNat (0xdc00 ||| ((character - 0x10000) &&& 0x3ff))) = true := by
      have large : (UInt16.ofNat (0xdc00 ||| ((character - 0x10000) &&& 0x3ff))) ≥ 128 := by
        have mask := Nat.and_two_pow_sub_one_eq_mod (character - 0x10000) 10
        have small : (character - 0x10000) &&& 0x3ff < 2 ^ 10 := by
          have masked : (character - 0x10000) &&& 0x3ff = (character - 0x10000) % 2 ^ 10 := mask
          omega
        have whole : 55 <<< 10 ||| ((character - 0x10000) &&& 0x3ff) = _ := shiftLeft_or small
        have value : 0xdc00 ||| ((character - 0x10000) &&& 0x3ff) =
            55 * 2 ^ 10 + ((character - 0x10000) &&& 0x3ff) := whole
        rw [ge_iff_le, UInt16.le_iff_toNat_le, UInt16.toNat_ofNat', value]
        have hundred : (128 : UInt16).toNat = 128 := rfl
        omega
      exact mayUnescape_high large
    simp only [if_pos wide, may, codeUnits, ↓reduceIte]
    rfl
  · simp only [if_neg wide, allowed (by omega), codeUnits, ↓reduceIte]
    rfl

theorem encodeByte_escaped {doNotEscape doNotUnescape : List Byte}
    (paired : Paired doNotEscape doNotUnescape) {c : Byte} (high : 0x80 ≤ c.toNat) :
    encodeByte doNotEscape c = percentByte c := by
  refine if_neg fun kept => ?_
  obtain ⟨-, member⟩ := Bool.and_eq_true_iff.mp kept
  have low := (paired.plain c (of_decide_eq_true member)).1
  omega

theorem flatMap_encodeByte_high {doNotEscape doNotUnescape : List Byte}
    (paired : Paired doNotEscape doNotUnescape) {ch : Nat} (wide : 0x80 ≤ ch) :
    (writeCharacter ch).flatMap (encodeByte doNotEscape) =
      (writeCharacter ch).flatMap percentByte := by
  apply List.flatMap_congr
  intro c member
  exact encodeByte_escaped paired (writeCharacter_high wide member)

/-- Escapes are read back where the character may be unescaped. -/
theorem decodeFrom_percentBytes {doNotUnescape : List Byte} {ch : Nat} (scalar : IsScalar ch)
    (allowed : ch < 0x10000 → mayUnescape doNotUnescape (.ofNat ch) = true) (strict : Bool)
    (steps : Nat) (rest : Text) : decodeFrom doNotUnescape strict (steps + 1)
        ((writeCharacter ch).flatMap percentByte ++ rest) =
      (decodeFrom doNotUnescape strict steps rest).map (codeUnits ch ++ ·) := by
  have found := escapedSequence_writeCharacter scalar rest
  have after : ((writeCharacter ch).flatMap percentByte ++ rest).drop
      ((writeCharacter ch).length * 3) = rest := by
    rw [← length_percentBytes, List.drop_left]
  cases written : writeCharacter ch with
  | nil => exact absurd written (writeCharacter_ne_nil ch)
  | cons b0 more =>
    rw [written] at found after
    obtain ⟨later, shape⟩ : ∃ later, (b0 :: more).flatMap percentByte ++ rest = 0x25 :: later :=
      ⟨_, rfl⟩
    rw [shape] at found after ⊢
    rw [decodeFrom_sequence found allowed, after]

/-- What is written for a character is read back. -/
theorem decodeFrom_writeCharacter {doNotEscape doNotUnescape : List Byte}
    (paired : Paired doNotEscape doNotUnescape) {ch : Nat} (scalar : IsScalar ch) (strict : Bool)
    (steps : Nat) (rest : Text) : decodeFrom doNotUnescape strict (steps + 1)
        ((writeCharacter ch).flatMap (encodeByte doNotEscape) ++ rest) =
      (decodeFrom doNotUnescape strict steps rest).map (codeUnits ch ++ ·) := by
  by_cases wide : 0x80 ≤ ch
  · rw [flatMap_encodeByte_high paired wide]
    refine decodeFrom_percentBytes scalar (fun narrow => mayUnescape_high ?_) strict steps rest
    rw [ge_iff_le, UInt16.le_iff_toNat_le, UInt16.toNat_ofNat']
    have value : (128 : UInt16).toNat = 0x80 := rfl
    omega
  · have one : writeCharacter ch = [.ofNat ch] := if_pos (by omega)
    have unit : (UInt8.ofNat ch).toUInt16 = UInt16.ofNat ch := by
      rw [← UInt16.toNat_inj, UInt8.toNat_toUInt16, UInt8.toNat_ofNat', UInt16.toNat_ofNat']
      omega
    have back : (UInt16.ofNat ch).toUInt8 = UInt8.ofNat ch := by
      rw [← UInt8.toNat_inj, UInt16.toNat_toUInt8, UInt8.toNat_ofNat', UInt16.toNat_ofNat']
      omega
    by_cases kept : (UInt8.ofNat ch ≠ 0 && decide (UInt8.ofNat ch ∈ doNotEscape)) = true
    · obtain ⟨-, member⟩ := Bool.and_eq_true_iff.mp kept
      have noEscape : (UInt16.ofNat ch) ≠ 0x25 := by
        intro same
        have other := (paired.plain _ (of_decide_eq_true member)).2
        exact other (by rw [← back, same]; rfl)
      have literal : (writeCharacter ch).flatMap (encodeByte doNotEscape) ++ rest =
          UInt16.ofNat ch :: rest := by
        rw [one, List.flatMap_singleton, encodeByte, if_pos kept, unit]
        rfl
      have units : codeUnits ch = [.ofNat ch] := if_neg (by omega)
      rw [literal, decodeFrom_literal noEscape, units]
      rfl
    · have escaped : (writeCharacter ch).flatMap (encodeByte doNotEscape) =
          (writeCharacter ch).flatMap percentByte := by
        rw [one, List.flatMap_singleton, List.flatMap_singleton, encodeByte, if_neg kept]
      rw [escaped]
      refine decodeFrom_percentBytes scalar (fun _ => ?_) strict steps rest
      rw [mayUnescape, back]
      by_cases zero : UInt16.ofNat ch = 0
      · rw [decide_eq_true zero, Bool.true_or, Bool.true_or]
      · have byte : UInt8.ofNat ch ≠ 0 := by
          intro same
          exact zero (by rw [← unit, same]; rfl)
        have notKept : UInt8.ofNat ch ∉ doNotEscape := by
          intro member
          exact kept (by rw [decide_eq_true byte, decide_eq_true member]; rfl)
        have notUnescaped : UInt8.ofNat ch ∉ doNotUnescape := fun member =>
          notKept (paired.sub member)
        rw [decide_eq_true notUnescaped, Bool.or_true]

/-! Texts. -/

theorem length_encodeByte_pos (doNotEscape : List Byte) (ch : Nat) :
    0 < ((writeCharacter ch).flatMap (encodeByte doNotEscape)).length := by
  cases written : writeCharacter ch with
  | nil => exact absurd written (writeCharacter_ne_nil ch)
  | cons b more =>
    rw [List.flatMap_cons, List.length_append, encodeByte]
    split_ifs
    · rw [List.length_singleton]
      omega
    · show 0 < 3 + _
      omega

theorem codeUnits_unit {ch : UChar} : codeUnits ch.toNat = [ch] := by
  have bound := ch.toNat_lt
  rw [codeUnits, if_neg (by omega), UInt16.ofNat_toNat]

theorem codeUnits_pair {ch ch2 : UChar} (high : isHighSurrogate ch = true)
    (low : isLowSurrogate ch2 = true) : codeUnits (surrogatePair ch ch2) = [ch, ch2] := by
  obtain ⟨first, second⟩ := surrogatePair_units high low
  rw [codeUnits, if_pos (isScalar_pair high low).2, first, second]

/-- Well-formed text has UTF-8, whose escapes are read back in enough steps. -/
theorem decodeFrom_encode {doNotEscape doNotUnescape : List Byte}
    (paired : Paired doNotEscape doNotUnescape) (strict : Bool) {str : Text}
    (wellFormed : isWellFormed str = true) : ∃ cstr, convertUTF16ToUTF8 true str = some cstr ∧
      ∀ steps, (cstr.flatMap (encodeByte doNotEscape)).length ≤ steps →
        decodeFrom doNotUnescape strict steps (cstr.flatMap (encodeByte doNotEscape)) = some str := by
  refine isWellFormed_induction ?nil ?unit ?pair str wellFormed
  case nil => exact ⟨[], rfl, fun steps _ => decodeFrom_nil doNotUnescape strict steps⟩
  case unit =>
    intro ch source high low later ih
    obtain ⟨cstr, converted, decoded⟩ := ih
    refine ⟨writeCharacter ch.toNat ++ cstr, ?_, ?_⟩
    · rw [convertUTF16ToUTF8_unit high low, converted]
      rfl
    · intro steps enough
      have positive := length_encodeByte_pos doNotEscape ch.toNat
      rw [List.flatMap_append, List.length_append] at enough
      obtain ⟨left, rfl⟩ : ∃ left, steps = left + 1 := ⟨steps - 1, by omega⟩
      rw [List.flatMap_append,
        decodeFrom_writeCharacter paired (isScalar_unit high low).1, decoded left (by omega),
        codeUnits_unit]
      rfl
  case pair =>
    intro ch ch2 rest high low later ih
    obtain ⟨cstr, converted, decoded⟩ := ih
    refine ⟨writeCharacter (surrogatePair ch ch2) ++ cstr, ?_, ?_⟩
    · rw [convertUTF16ToUTF8_pair high low, converted]
      rfl
    · intro steps enough
      have positive := length_encodeByte_pos doNotEscape (surrogatePair ch ch2)
      rw [List.flatMap_append, List.length_append] at enough
      obtain ⟨left, rfl⟩ : ∃ left, steps = left + 1 := ⟨steps - 1, by omega⟩
      rw [List.flatMap_append,
        decodeFrom_writeCharacter paired (isScalar_pair high low).1, decoded left (by omega),
        codeUnits_pair high low]
      rfl

/-- A pair of functions round trips. -/
theorem decode_encode {doNotEscape doNotUnescape : List Byte}
    (paired : Paired doNotEscape doNotUnescape) (strict : Bool) {str : Text}
    (wellFormed : isWellFormed str = true) :
    (encode doNotEscape str).bind (decode doNotUnescape strict) = some str := by
  obtain ⟨cstr, converted, decoded⟩ := decodeFrom_encode paired strict wellFormed
  rw [encode, converted]
  exact decoded _ (Nat.le_refl _)

theorem paired_URI : Paired (alphanumeric ++ ascii "!#$&'()*+,-./:;=?@_~") (ascii "#$&+,/:;=?@") where
  sub := by decide
  plain := forall_mem_of_all (by decide)

theorem paired_URIComponent : Paired (alphanumeric ++ ascii "!'()*-._~") [] where
  sub := by decide
  plain := forall_mem_of_all (by decide)

/-! `escape` and `unescape`. -/

/-- The four digits of a code unit are those of its two bytes. -/
theorem unit_digits (u : UChar) : (u >>> 12).toUInt8 = (u >>> 8).toUInt8 >>> 4 ∧
    (u >>> 4).toUInt8 &&& (0xf : Byte) = u.toUInt8 >>> 4 ∧
      ((u >>> 8).toUInt8.toUInt16 <<< 8) ||| u.toUInt8.toUInt16 = u := by
  have bound := u.toNat_lt
  have nibble := (byte_masks (u >>> 4).toUInt8).2.2.1
  refine ⟨?_, ?_, ?_⟩
  · rw [← UInt8.toNat_inj, UInt8.toNat_shiftRight, UInt16.toNat_toUInt8, UInt16.toNat_toUInt8,
      UInt16.toNat_shiftRight, UInt16.toNat_shiftRight]
    simp only [UInt16.reduceToNat, UInt8.reduceToNat, Nat.reduceMod, Nat.shiftRight_eq_div_pow]
    omega
  · rw [← UInt8.toNat_inj, nibble, UInt8.toNat_shiftRight, UInt16.toNat_toUInt8,
      UInt16.toNat_toUInt8, UInt16.toNat_shiftRight]
    simp only [UInt16.reduceToNat, UInt8.reduceToNat, Nat.reduceMod, Nat.shiftRight_eq_div_pow]
    omega
  · have value : (u.toNat / 2 ^ 8) <<< 8 ||| u.toNat % 2 ^ 8 = u.toNat := by
      rw [shiftLeft_or (by omega)]
      omega
    rw [← UInt16.toNat_inj, UInt16.toNat_or, UInt16.toNat_shiftLeft, UInt8.toNat_toUInt16,
      UInt8.toNat_toUInt16, UInt16.toNat_toUInt8, UInt16.toNat_toUInt8, UInt16.toNat_shiftRight]
    simp only [UInt16.reduceToNat, Nat.reduceMod, Nat.shiftRight_eq_div_pow]
    have small : u.toNat / 2 ^ 8 % 2 ^ 8 = u.toNat / 2 ^ 8 := Nat.mod_eq_of_lt (by omega)
    have fits : (u.toNat / 2 ^ 8) <<< 8 % 2 ^ 16 = (u.toNat / 2 ^ 8) <<< 8 := by
      rw [Nat.shiftLeft_eq]
      exact Nat.mod_eq_of_lt (by omega)
    rw [small, fits, value]

/-- What is written for a code unit is read back. -/
theorem unescapeFrom_escapeCharacter (steps : Nat) (u : UChar) (rest : Text) :
    unescapeFrom (steps + 1) (escapeCharacter u ++ rest) = u :: unescapeFrom steps rest := by
  rw [escapeCharacter]
  split_ifs with wide kept
  · obtain ⟨upper, lower, value⟩ := unit_digits u
    obtain ⟨first, second, -, high⟩ := hexDigits_byte (u >>> 8).toUInt8
    obtain ⟨third, fourth, -, low⟩ := hexDigits_byte u.toUInt8
    have read : escapedUnicode (0x25 :: 0x75 :: hexDigit ((u >>> 8).toUInt8 >>> 4) ::
        hexDigit ((u >>> 8).toUInt8 &&& 0xf) :: hexDigit (u.toUInt8 >>> 4) ::
          hexDigit (u.toUInt8 &&& 0xf) :: rest) = some u := by
      rw [escapedUnicode, first, second, third, fourth, convertUnicode, high, low, value]
      rfl
    rw [upper, lower]
    simp only [List.cons_append, List.nil_append, unescapeFrom, read, List.length_cons,
      List.head?_cons, decide_true, Bool.and_true, Bool.true_and]
    rw [if_pos (decide_eq_true (by omega))]
    rfl
  · obtain ⟨-, member⟩ := Bool.and_eq_true_iff.mp kept
    have noEscape : u ≠ 0x25 := by
      intro same
      rw [same] at member
      exact absurd member (by decide)
    have literal : escapedByte (u :: rest) = none := by
      rw [escapedByte.eq_def]
      split
      · next c c1 c2 more same =>
        obtain ⟨rfl, -⟩ := List.cons.inj same
        rw [decide_eq_false noEscape, Bool.false_and, Bool.false_and]
        rfl
      · rfl
    simp only [List.singleton_append, unescapeFrom, literal, noEscape, decide_false,
      Bool.false_and, Bool.false_eq_true, ↓reduceIte]
  · have low : u.toUInt8.toUInt16 = u := by
      have bound : u.toNat ≤ 255 := by
        rw [gt_iff_lt, UInt16.lt_iff_toNat_lt] at wide
        exact Nat.le_of_not_lt wide
      rw [← UInt16.toNat_inj, UInt8.toNat_toUInt16, UInt16.toNat_toUInt8]
      omega
    have read := escapedByte_percentByte u.toUInt8 rest
    obtain ⟨-, -, noUnicode, -⟩ := hexDigits_byte u.toUInt8
    have shape : percentByte u.toUInt8 ++ rest =
        0x25 :: hexDigit (u.toUInt8 >>> 4) :: hexDigit (u.toUInt8 &&& 0xf) :: rest := rfl
    rw [shape] at read ⊢
    rw [unescapeFrom, read]
    simp only [List.head?_cons, Option.some.injEq, noUnicode, decide_false, Bool.and_false,
      Bool.false_eq_true, ↓reduceIte, low]
    rfl

theorem length_escapeCharacter_pos (u : UChar) : 0 < (escapeCharacter u).length := by
  rw [escapeCharacter]
  split_ifs
  · exact Nat.succ_pos _
  · exact Nat.succ_pos _
  · exact Nat.succ_pos _

theorem unescapeFrom_escape (str : Text) (steps : Nat) (enough : (escape str).length ≤ steps) :
    unescapeFrom steps (escape str) = str := by
  induction str generalizing steps with
  | nil => cases steps <;> rfl
  | cons u more ih =>
    have positive := length_escapeCharacter_pos u
    have apart : escape (u :: more) = escapeCharacter u ++ escape more := List.flatMap_cons
    rw [apart, List.length_append] at enough
    obtain ⟨left, rfl⟩ : ∃ left, steps = left + 1 := ⟨steps - 1, by omega⟩
    rw [apart, unescapeFrom_escapeCharacter, ih left (by omega)]

theorem unescape_escape (str : Text) : unescape (escape str) = str :=
  unescapeFrom_escape str _ (Nat.le_refl _)

end WkcBrowser.Runtime
