import WkcBrowser.Lib.Bytes
import WkcBrowser.Wtf.StringImpl

/-! The conversion of UTF-16 to UTF-8 and the decoding of single sequences, as in WTF's Unicode
directory. -/

namespace WkcBrowser.Wtf

open Lib

def isHighSurrogate (c : UChar) : Bool := 0xd800 ≤ c && c ≤ 0xdbff

def isLowSurrogate (c : UChar) : Bool := 0xdc00 ≤ c && c ≤ 0xdfff

/-- The character of a surrogate pair. -/
def surrogatePair (ch ch2 : UChar) : Nat :=
  ((ch.toNat - 0xd800) <<< 10) + (ch2.toNat - 0xdc00) + 0x10000

/-- A byte after the first of a sequence. -/
def tailByte (ch : Nat) : Byte := (.ofNat ch ||| 0x80) &&& 0xbf

/-- The bytes that are written for a character. -/
def writeCharacter (ch : Nat) : List Byte :=
  if ch < 0x80 then [.ofNat ch]
  else if ch < 0x800 then [.ofNat (ch >>> 6) ||| 0xc0, tailByte ch]
  else if ch < 0x10000 then [.ofNat (ch >>> 12) ||| 0xe0, tailByte (ch >>> 6), tailByte ch]
  else if ch < 0x110000 then
    [.ofNat (ch >>> 18) ||| 0xf0, tailByte (ch >>> 12), tailByte (ch >>> 6), tailByte ch]
  else [0xef, 0xbf, 0xbd]

/-- What is converted when all of it is. -/
def convertUTF16ToUTF8 (strict : Bool) : Text → Option (List Byte)
  | [] => some []
  | ch :: source =>
    if isHighSurrogate ch then
      match source with
      | [] => none
      | ch2 :: rest =>
        if isLowSurrogate ch2 then
          (convertUTF16ToUTF8 strict rest).map (writeCharacter (surrogatePair ch ch2) ++ ·)
        else if strict then none
        else (convertUTF16ToUTF8 strict (ch2 :: rest)).map (writeCharacter ch.toNat ++ ·)
    else if strict && isLowSurrogate ch then none
    else (convertUTF16ToUTF8 strict source).map (writeCharacter ch.toNat ++ ·)

def UTF8SequenceLength (b0 : Byte) : Nat :=
  if b0 &&& 0x80 = 0 then 1
  else if b0 &&& 0xc0 ≠ 0xc0 then 0
  else if b0 &&& 0xe0 = 0xc0 then 2
  else if b0 &&& 0xf0 = 0xe0 then 3
  else if b0 &&& 0xf8 = 0xf0 then 4
  else 0

/-- The character of a sequence that ends with a null byte. -/
def decodeUTF8Sequence (sequence : List Byte) : Option Nat :=
  let b0 := sequence.getD 0 0
  let length := UTF8SequenceLength b0
  let b1 := sequence.getD 1 0
  let b2 := sequence.getD 2 0
  let b3 := sequence.getD 3 0
  let b4 := sequence.getD 4 0
  if length = 0 then none
  else if length = 1 then if b1 ≠ 0 then none else some b0.toNat
  else if b1 &&& 0xc0 ≠ 0x80 then none
  else if length = 2 then
    if b2 ≠ 0 then none
    else
      let c := ((b0 &&& 0x1f).toNat <<< 6) ||| (b1 &&& 0x3f).toNat
      if c < 0x80 then none else some c
  else if b2 &&& 0xc0 ≠ 0x80 then none
  else if length = 3 then
    if b3 ≠ 0 then none
    else
      let c := ((b0 &&& 0xf).toNat <<< 12) ||| ((b1 &&& 0x3f).toNat <<< 6) ||| (b2 &&& 0x3f).toNat
      if c < 0x800 then none else if 0xd800 ≤ c && c ≤ 0xdfff then none else some c
  else if b3 &&& 0xc0 ≠ 0x80 then none
  else if b4 ≠ 0 then none
  else
    let c := ((b0 &&& 0x7).toNat <<< 18) ||| ((b1 &&& 0x3f).toNat <<< 12) |||
      ((b2 &&& 0x3f).toNat <<< 6) ||| (b3 &&& 0x3f).toNat
    if c < 0x10000 || c > 0x10ffff then none else some c

/-- Every surrogate is in a pair. -/
def isWellFormed : Text → Bool
  | [] => true
  | ch :: source =>
    if isHighSurrogate ch then
      match source with
      | [] => false
      | ch2 :: rest => isLowSurrogate ch2 && isWellFormed rest
    else !isLowSurrogate ch && isWellFormed source

/-! Sequences. -/

/-- A character is no surrogate. -/
def IsScalar (ch : Nat) : Prop := ch < 0xd800 ∨ 0xe000 ≤ ch ∧ ch < 0x110000

theorem byte_masks (b : Byte) : (b &&& 0x3f).toNat = b.toNat % 64 ∧ (b &&& 0x1f).toNat = b.toNat % 32 ∧
    (b &&& 0xf).toNat = b.toNat % 16 ∧ (b &&& 0x7).toNat = b.toNat % 8 ∧
    (b &&& 0xc0 = 0x80 ↔ 128 ≤ b.toNat ∧ b.toNat < 192) := by
  have facts := forall_byte (fun b => (b &&& 0x3f).toNat = b.toNat % 64 && ((b &&& 0x1f).toNat =
    b.toNat % 32 && ((b &&& 0xf).toNat = b.toNat % 16 && ((b &&& 0x7).toNat = b.toNat % 8 &&
      (b &&& 0xc0 = 0x80 ↔ 128 ≤ b.toNat ∧ b.toNat < 192))))) (by decide) b
  simpa only [Bool.and_eq_true, decide_eq_true_eq] using facts

theorem toNat_tailByte (ch : Nat) : (tailByte ch).toNat = 128 + ch % 64 := by
  have facts := forall_byte (fun b => ((b ||| 0x80) &&& 0xbf).toNat = 128 + b.toNat % 64)
    (by decide) (.ofNat ch)
  have same := of_decide_eq_true facts
  rw [tailByte, same, UInt8.toNat_ofNat']
  omega

theorem UTF8SequenceLength_eq (b : Byte) : UTF8SequenceLength b =
    if b.toNat < 128 then 1 else if b.toNat < 192 then 0 else if b.toNat < 224 then 2
    else if b.toNat < 240 then 3 else if b.toNat < 248 then 4 else 0 := by
  have facts := forall_byte (fun b => UTF8SequenceLength b = if b.toNat < 128 then 1
    else if b.toNat < 192 then 0 else if b.toNat < 224 then 2 else if b.toNat < 240 then 3
    else if b.toNat < 248 then 4 else 0) (by decide) b
  exact of_decide_eq_true facts

/-- The first bytes of longer sequences. -/
theorem toNat_leadBytes (n : Nat) : (n < 32 → (UInt8.ofNat n ||| 0xc0).toNat = 192 + n) ∧
    (n < 16 → (UInt8.ofNat n ||| 0xe0).toNat = 224 + n) ∧
    (n < 8 → (UInt8.ofNat n ||| 0xf0).toNat = 240 + n) := by
  have facts := forall_byte (fun b => (b.toNat < 32 → (b ||| 0xc0).toNat = 192 + b.toNat) &&
    ((b.toNat < 16 → (b ||| 0xe0).toNat = 224 + b.toNat) &&
      (b.toNat < 8 → (b ||| 0xf0).toNat = 240 + b.toNat))) (by decide) (.ofNat n)
  simp only [Bool.and_eq_true, decide_eq_true_eq, UInt8.toNat_ofNat'] at facts
  obtain ⟨two, three, four⟩ := facts
  exact ⟨fun small => by rw [two (by omega)]; omega, fun small => by rw [three (by omega)]; omega,
    fun small => by rw [four (by omega)]; omega⟩

theorem shiftLeft_or {a b n : Nat} (small : b < 2 ^ n) : a <<< n ||| b = a * 2 ^ n + b := by
  rw [← Nat.shiftLeft_add_eq_or_of_lt small, Nat.shiftLeft_eq]

theorem writeCharacter_ne_nil (ch : Nat) : writeCharacter ch ≠ [] := by
  rw [writeCharacter]
  split_ifs <;> exact List.cons_ne_nil _ _

/-- The first byte of a sequence tells its length. -/
theorem UTF8SequenceLength_writeCharacter {ch : Nat} (scalar : IsScalar ch) :
    UTF8SequenceLength ((writeCharacter ch).getD 0 0) = (writeCharacter ch).length := by
  unfold IsScalar at scalar
  obtain ⟨two, -, -⟩ := toNat_leadBytes (ch >>> 6)
  obtain ⟨-, three, -⟩ := toNat_leadBytes (ch >>> 12)
  obtain ⟨-, -, four⟩ := toNat_leadBytes (ch >>> 18)
  simp only [Nat.shiftRight_eq_div_pow] at two three four
  rw [writeCharacter]
  split_ifs with one pair triple quadruple
  · have byte : (UInt8.ofNat ch).toNat = ch := by
      rw [UInt8.toNat_ofNat']
      omega
    simp only [List.getD_cons_zero, UTF8SequenceLength_eq, byte, if_pos one, List.length_singleton]
  · have byte := two (by omega)
    simp only [List.getD_cons_zero, UTF8SequenceLength_eq, Nat.shiftRight_eq_div_pow, byte]
    rw [if_neg (by omega), if_neg (by omega), if_pos (by omega)]
    rfl
  · have byte := three (by omega)
    simp only [List.getD_cons_zero, UTF8SequenceLength_eq, Nat.shiftRight_eq_div_pow, byte]
    rw [if_neg (by omega), if_neg (by omega), if_neg (by omega), if_pos (by omega)]
    rfl
  · have byte := four (by omega)
    simp only [List.getD_cons_zero, UTF8SequenceLength_eq, Nat.shiftRight_eq_div_pow, byte]
    rw [if_neg (by omega), if_neg (by omega), if_neg (by omega), if_neg (by omega), if_pos (by omega)]
    rfl
  · omega

/-- A sequence that was written is decoded. -/
theorem decodeUTF8Sequence_writeCharacter {ch : Nat} (scalar : IsScalar ch) :
    decodeUTF8Sequence (writeCharacter ch) = some ch := by
  have length := UTF8SequenceLength_writeCharacter scalar
  unfold IsScalar at scalar
  have tail : ∀ n, ¬(tailByte n &&& 0xc0 ≠ 0x80) := by
    intro n
    rw [not_not, (byte_masks (tailByte n)).2.2.2.2, toNat_tailByte]
    omega
  have low : ∀ n, (tailByte n &&& 0x3f).toNat = n % 64 := by
    intro n
    rw [(byte_masks (tailByte n)).1, toNat_tailByte]
    omega
  have null : ¬(0 : Byte) ≠ 0 := not_not.mpr rfl
  have last : (ch / 2 ^ 6 % 64) <<< 6 ||| ch % 64 = ch / 2 ^ 6 % 64 * 2 ^ 6 + ch % 64 :=
    shiftLeft_or (by omega)
  by_cases one : ch < 0x80
  · have sequence : writeCharacter ch = [.ofNat ch] := if_pos one
    have byte : (UInt8.ofNat ch).toNat = ch := by
      rw [UInt8.toNat_ofNat']
      omega
    rw [sequence] at length ⊢
    rw [decodeUTF8Sequence, length]
    exact congrArg some byte
  by_cases two : ch < 0x800
  · have sequence : writeCharacter ch = [.ofNat (ch >>> 6) ||| 0xc0, tailByte ch] := by
      rw [writeCharacter, if_neg one, if_pos two]
    have lead := (toNat_leadBytes (ch >>> 6)).1 (by rw [Nat.shiftRight_eq_div_pow]; omega)
    have mask := (byte_masks (.ofNat (ch >>> 6) ||| 0xc0)).2.1
    rw [lead, Nat.shiftRight_eq_div_pow] at mask
    have value : ((192 + ch / 2 ^ 6) % 32) <<< 6 ||| ch % 64 = ch := by
      rw [shiftLeft_or (by omega)]
      omega
    rw [sequence] at length ⊢
    rw [decodeUTF8Sequence, length]
    simp only [List.getD_cons_zero, List.getD_cons_succ, List.getD_nil, List.length_cons,
      List.length_nil, Nat.shiftRight_eq_div_pow, mask, low, value, if_neg (tail _), if_neg null,
      Nat.reduceAdd, Nat.reduceEqDiff, ↓reduceIte]
    exact if_neg one
  by_cases three : ch < 0x10000
  · have sequence : writeCharacter ch =
        [.ofNat (ch >>> 12) ||| 0xe0, tailByte (ch >>> 6), tailByte ch] := by
      rw [writeCharacter, if_neg one, if_neg two, if_pos three]
    have lead := (toNat_leadBytes (ch >>> 12)).2.1 (by rw [Nat.shiftRight_eq_div_pow]; omega)
    have mask := (byte_masks (.ofNat (ch >>> 12) ||| 0xe0)).2.2.1
    rw [lead, Nat.shiftRight_eq_div_pow] at mask
    have value : ((224 + ch / 2 ^ 12) % 16) <<< 12 ||| (ch / 2 ^ 6 % 64) <<< 6 ||| ch % 64 = ch := by
      rw [Nat.or_assoc, last, shiftLeft_or (by omega)]
      omega
    rw [sequence] at length ⊢
    rw [decodeUTF8Sequence, length]
    simp only [List.getD_cons_zero, List.getD_cons_succ, List.getD_nil, List.length_cons,
      List.length_nil, Nat.shiftRight_eq_div_pow, mask, low, value, if_neg (tail _), if_neg null,
      Nat.reduceAdd, Nat.reduceEqDiff, ↓reduceIte]
    have noSurrogate : ¬(decide (0xd800 ≤ ch) && decide (ch ≤ 0xdfff)) = true := by
      simp only [Bool.and_eq_true, decide_eq_true_eq]
      omega
    rw [if_neg two, if_neg noSurrogate]
  · have four : ch < 0x110000 := by omega
    have sequence : writeCharacter ch =
        [.ofNat (ch >>> 18) ||| 0xf0, tailByte (ch >>> 12), tailByte (ch >>> 6), tailByte ch] := by
      rw [writeCharacter, if_neg one, if_neg two, if_neg three, if_pos four]
    have lead := (toNat_leadBytes (ch >>> 18)).2.2 (by rw [Nat.shiftRight_eq_div_pow]; omega)
    have mask := (byte_masks (.ofNat (ch >>> 18) ||| 0xf0)).2.2.2.1
    rw [lead, Nat.shiftRight_eq_div_pow] at mask
    have value : ((240 + ch / 2 ^ 18) % 8) <<< 18 ||| (ch / 2 ^ 12 % 64) <<< 12 |||
        (ch / 2 ^ 6 % 64) <<< 6 ||| ch % 64 = ch := by
      have rest : (ch / 2 ^ 12 % 64) <<< 12 ||| (ch / 2 ^ 6 % 64 * 2 ^ 6 + ch % 64) =
          ch / 2 ^ 12 % 64 * 2 ^ 12 + (ch / 2 ^ 6 % 64 * 2 ^ 6 + ch % 64) := shiftLeft_or (by omega)
      rw [Nat.or_assoc, Nat.or_assoc, last, rest, shiftLeft_or (by omega)]
      omega
    rw [sequence] at length ⊢
    rw [decodeUTF8Sequence, length]
    simp only [List.getD_cons_zero, List.getD_cons_succ, List.getD_nil, List.length_cons,
      List.length_nil, Nat.shiftRight_eq_div_pow, mask, low, value, if_neg (tail _), if_neg null,
      Nat.reduceAdd, Nat.reduceEqDiff, ↓reduceIte]
    have inRange : ¬(decide (ch < 0x10000) || decide (ch > 0x10ffff)) = true := by
      simp only [Bool.or_eq_true, decide_eq_true_eq]
      omega
    rw [if_neg inRange]

/-- A character beyond ASCII is written in bytes beyond ASCII. -/
theorem writeCharacter_high {ch : Nat} (wide : 0x80 ≤ ch) {c : Byte} (member : c ∈ writeCharacter ch) :
    0x80 ≤ c.toNat := by
  have or_left : ∀ b : Byte, 0x80 ≤ (b ||| 0xc0).toNat ∧ 0x80 ≤ (b ||| 0xe0).toNat ∧
      0x80 ≤ (b ||| 0xf0).toNat := by
    intro b
    have facts := forall_byte (fun b => 0x80 ≤ (b ||| 0xc0).toNat && (0x80 ≤ (b ||| 0xe0).toNat &&
      0x80 ≤ (b ||| 0xf0).toNat)) (by decide) b
    simpa only [Bool.and_eq_true, decide_eq_true_eq] using facts
  have tail : ∀ n, 0x80 ≤ (tailByte n).toNat := by
    intro n
    rw [toNat_tailByte]
    omega
  have all : ∀ c ∈ writeCharacter ch, 0x80 ≤ c.toNat := by
    rw [writeCharacter, if_neg (by omega)]
    split_ifs
    · simp only [List.forall_mem_cons, or_left, tail, List.not_mem_nil, false_implies,
        implies_true, and_self]
    · simp only [List.forall_mem_cons, or_left, tail, List.not_mem_nil, false_implies,
        implies_true, and_self]
    · simp only [List.forall_mem_cons, or_left, tail, List.not_mem_nil, false_implies,
        implies_true, and_self]
    · exact forall_mem_of_all rfl
  exact all c member

/-! Well-formed text. -/

/-- Well-formed text is taken apart by its characters. -/
@[elab_as_elim]
theorem isWellFormed_induction {motive : Text → Prop} (nil : motive [])
    (unit : ∀ ch source, isHighSurrogate ch = false → isLowSurrogate ch = false →
      isWellFormed source = true → motive source → motive (ch :: source))
    (pair : ∀ ch ch2 rest, isHighSurrogate ch = true → isLowSurrogate ch2 = true →
      isWellFormed rest = true → motive rest → motive (ch :: ch2 :: rest)) (text : Text)
    (wellFormed : isWellFormed text = true) : motive text := by
  fun_induction isWellFormed text with
  | case1 => exact nil
  | case2 => cases wellFormed
  | case3 ch high ch2 rest ih =>
    obtain ⟨low, later⟩ := Bool.and_eq_true_iff.mp wellFormed
    exact pair ch ch2 rest high low later (ih later)
  | case4 ch source high ih =>
    obtain ⟨low, later⟩ := Bool.and_eq_true_iff.mp wellFormed
    rw [Bool.not_eq_true'] at low
    exact unit ch source (Bool.eq_false_iff.mpr high) low later (ih later)

theorem isScalar_unit {ch : UChar} (high : isHighSurrogate ch = false)
    (low : isLowSurrogate ch = false) : IsScalar ch.toNat ∧ ch.toNat < 0x10000 := by
  unfold isHighSurrogate at high
  unfold isLowSurrogate at low
  have bound := ch.toNat_lt
  simp only [Bool.and_eq_false_iff, decide_eq_false_iff_not, UInt16.le_iff_toNat_le] at high low
  simp at high low
  unfold IsScalar
  omega

theorem surrogate_bounds {ch ch2 : UChar} (high : isHighSurrogate ch = true)
    (low : isLowSurrogate ch2 = true) : 0xd800 ≤ ch.toNat ∧ ch.toNat < 0xdc00 ∧
      0xdc00 ≤ ch2.toNat ∧ ch2.toNat < 0xe000 := by
  unfold isHighSurrogate at high
  unfold isLowSurrogate at low
  simp only [Bool.and_eq_true, decide_eq_true_eq, UInt16.le_iff_toNat_le] at high low
  simp at high low
  omega

theorem isScalar_pair {ch ch2 : UChar} (high : isHighSurrogate ch = true)
    (low : isLowSurrogate ch2 = true) :
    IsScalar (surrogatePair ch ch2) ∧ 0x10000 ≤ surrogatePair ch ch2 := by
  have bounds := surrogate_bounds high low
  unfold IsScalar surrogatePair
  rw [Nat.shiftLeft_eq]
  omega

/-- The two units of a character outside the basic plane. -/
theorem surrogatePair_units {ch ch2 : UChar} (high : isHighSurrogate ch = true)
    (low : isLowSurrogate ch2 = true) :
    UInt16.ofNat (0xd800 ||| ((surrogatePair ch ch2 - 0x10000) >>> 10)) = ch ∧
      UInt16.ofNat (0xdc00 ||| ((surrogatePair ch ch2 - 0x10000) &&& 0x3ff)) = ch2 := by
  have bounds := surrogate_bounds high low
  have value : surrogatePair ch ch2 - 0x10000 =
      (ch.toNat - 0xd800) * 2 ^ 10 + (ch2.toNat - 0xdc00) := by
    unfold surrogatePair
    rw [Nat.shiftLeft_eq]
    omega
  have first : 0xd800 ||| (ch.toNat - 0xd800) = ch.toNat := by
    have whole : 54 <<< 10 ||| (ch.toNat - 0xd800) = 54 * 2 ^ 10 + (ch.toNat - 0xd800) :=
      shiftLeft_or (by omega)
    exact whole.trans (by omega)
  have second : 0xdc00 ||| (ch2.toNat - 0xdc00) = ch2.toNat := by
    have whole : 55 <<< 10 ||| (ch2.toNat - 0xdc00) = 55 * 2 ^ 10 + (ch2.toNat - 0xdc00) :=
      shiftLeft_or (by omega)
    exact whole.trans (by omega)
  have upper : ((ch.toNat - 0xd800) * 2 ^ 10 + (ch2.toNat - 0xdc00)) >>> 10 = ch.toNat - 0xd800 := by
    rw [Nat.shiftRight_eq_div_pow]
    omega
  have lower : ((ch.toNat - 0xd800) * 2 ^ 10 + (ch2.toNat - 0xdc00)) &&& 0x3ff =
      ch2.toNat - 0xdc00 := by
    have mask := Nat.and_two_pow_sub_one_eq_mod ((ch.toNat - 0xd800) * 2 ^ 10 + (ch2.toNat - 0xdc00)) 10
    exact mask.trans (by omega)
  rw [value, upper, lower, first, second, UInt16.ofNat_toNat, UInt16.ofNat_toNat]
  exact ⟨rfl, rfl⟩

theorem convertUTF16ToUTF8_unit {strict : Bool} {ch : UChar} {source : Text}
    (high : isHighSurrogate ch = false) (low : isLowSurrogate ch = false) :
    convertUTF16ToUTF8 strict (ch :: source) =
      (convertUTF16ToUTF8 strict source).map (writeCharacter ch.toNat ++ ·) := by
  rw [convertUTF16ToUTF8.eq_def]
  simp [high, low]

theorem convertUTF16ToUTF8_pair {strict : Bool} {ch ch2 : UChar} {rest : Text}
    (high : isHighSurrogate ch = true) (low : isLowSurrogate ch2 = true) :
    convertUTF16ToUTF8 strict (ch :: ch2 :: rest) =
      (convertUTF16ToUTF8 strict rest).map (writeCharacter (surrogatePair ch ch2) ++ ·) := by
  rw [convertUTF16ToUTF8.eq_def]
  simp [high, low]

theorem isWellFormed_unit {ch : UChar} {source : Text} (high : isHighSurrogate ch = false)
    (low : isLowSurrogate ch = false) : isWellFormed (ch :: source) = isWellFormed source := by
  rw [isWellFormed.eq_def]
  simp [high, low]

theorem isWellFormed_pair {ch ch2 : UChar} {rest : Text} (high : isHighSurrogate ch = true)
    (low : isLowSurrogate ch2 = true) : isWellFormed (ch :: ch2 :: rest) = isWellFormed rest := by
  rw [isWellFormed.eq_def]
  simp [high, low]

/-- Text after well-formed text is well-formed if the whole is. -/
theorem isWellFormed_append {front back : Text} (wellFormed : isWellFormed front = true) :
    isWellFormed (front ++ back) = isWellFormed back := by
  refine isWellFormed_induction ?nil ?unit ?pair front wellFormed
  case nil => rfl
  case unit =>
    intro ch source high low later ih
    rw [List.cons_append, isWellFormed_unit high low, ih]
  case pair =>
    intro ch ch2 rest high low later ih
    rw [List.cons_append, List.cons_append, isWellFormed_pair high low, ih]

/-- Well-formed text may be cut where no low surrogate follows. -/
theorem isWellFormed_prefix {front back : Text} (wellFormed : isWellFormed (front ++ back) = true)
    (cut : ∀ ch ∈ back.head?, isLowSurrogate ch = false) : isWellFormed front = true := by
  fun_induction isWellFormed front with
  | case1 => rfl
  | case2 ch high =>
    -- The unit after the front is no second half.
    rw [List.singleton_append, isWellFormed.eq_def] at wellFormed
    cases back with
    | nil => simp [high] at wellFormed
    | cons ch2 rest =>
      have noLow := cut ch2 rfl
      simp [high, noLow] at wellFormed
  | case3 ch high ch2 rest ih =>
    rw [List.cons_append, List.cons_append, isWellFormed, if_pos high] at wellFormed
    obtain ⟨low, later⟩ := Bool.and_eq_true_iff.mp wellFormed
    rw [low, ih later]
    rfl
  | case4 ch source high ih =>
    rw [List.cons_append, isWellFormed.eq_def] at wellFormed
    simp only [if_neg high] at wellFormed
    obtain ⟨low, later⟩ := Bool.and_eq_true_iff.mp wellFormed
    rw [low, ih later]
    rfl

theorem convertUTF16ToUTF8_append {strict : Bool} {front back : Text}
    (wellFormed : isWellFormed front = true) : convertUTF16ToUTF8 strict (front ++ back) =
      (convertUTF16ToUTF8 strict front).bind fun first =>
        (convertUTF16ToUTF8 strict back).map (first ++ ·) := by
  refine isWellFormed_induction ?nil ?unit ?pair front wellFormed
  case nil => simp [convertUTF16ToUTF8]
  case unit =>
    intro ch source high low later ih
    rw [List.cons_append, convertUTF16ToUTF8_unit high low, convertUTF16ToUTF8_unit high low, ih]
    cases convertUTF16ToUTF8 strict source <;> cases convertUTF16ToUTF8 strict back <;> simp
  case pair =>
    intro ch ch2 rest high low later ih
    rw [List.cons_append, List.cons_append, convertUTF16ToUTF8_pair high low,
      convertUTF16ToUTF8_pair high low, ih]
    cases convertUTF16ToUTF8 strict rest <;> cases convertUTF16ToUTF8 strict back <;> simp

/-- Well-formed text is converted. -/
theorem convertUTF16ToUTF8_isSome {strict : Bool} {text : Text} (wellFormed : isWellFormed text = true) :
    ∃ bytes, convertUTF16ToUTF8 strict text = some bytes := by
  refine isWellFormed_induction ?nil ?unit ?pair text wellFormed
  case nil => exact ⟨[], rfl⟩
  case unit =>
    intro ch source high low later ih
    obtain ⟨bytes, converted⟩ := ih
    exact ⟨_, by rw [convertUTF16ToUTF8_unit high low, converted]; rfl⟩
  case pair =>
    intro ch ch2 rest high low later ih
    obtain ⟨bytes, converted⟩ := ih
    exact ⟨_, by rw [convertUTF16ToUTF8_pair high low, converted]; rfl⟩

end WkcBrowser.Wtf
