import WkcBrowser.Wtf.StringImpl

/-! The UTF-16 codec. Bytes arrive in chunks, and a byte that has no second one yet waits in the codec
for the next chunk. -/

namespace WkcBrowser.Wtf

structure TextCodecUTF16 where
  littleEndian : Bool
  haveBufferedByte : Bool
  bufferedByte : Byte

namespace TextCodecUTF16

/-- A new codec does not set its byte. -/
def create (littleEndian : Bool) (unset : Byte) : TextCodecUTF16 := ⟨littleEndian, false, unset⟩

def unit (littleEndian : Bool) (first second : Byte) : UChar :=
  if littleEndian then first.toUInt16 ||| second.toUInt16 <<< 8
  else first.toUInt16 <<< 8 ||| second.toUInt16

/-- The loop over whole units, with the pointer behind them. Behind the chunk there is nothing to read. -/
def decodeUnits (littleEndian : Bool) : Nat → List Byte → Option (Text × List Byte)
  | 0, p => some ([], p)
  | numChars + 1, first :: second :: p => do
    let (q, p) ← decodeUnits littleEndian numChars p
    some (unit littleEndian first second :: q, p)
  | _ + 1, _ => none

/-- The text that a chunk gives, null for an empty chunk. A read or a write outside gives nothing. -/
def decode (codec : TextCodecUTF16) (bytes : List Byte) :
    Option (Option Text × TextCodecUTF16) :=
  if bytes.length = 0 then some (none, codec)
  else do
    let numBytes := bytes.length + codec.haveBufferedByte.toNat
    let numChars := numBytes / 2
    let (first, p, remaining) ←
      if codec.haveBufferedByte then
        match bytes with
        | [] => none
        | byte :: p => some ([unit codec.littleEndian codec.bufferedByte byte], p, numChars - 1)
      else some ([], bytes, numChars)
    let (others, p) ← decodeUnits codec.littleEndian remaining p
    let q := first ++ others
    if numChars < q.length then none
    else if numBytes % 2 = 1 then
      match p with
      | [] => none
      | byte :: _ =>
        some (some q, { codec with haveBufferedByte := true, bufferedByte := byte })
    else some (some q, { codec with haveBufferedByte := false })

def encode (codec : TextCodecUTF16) (characters : Text) : List Byte :=
  characters.flatMap fun c : UChar =>
    if codec.littleEndian then [c.toUInt8, (c >>> 8).toUInt8] else [(c >>> 8).toUInt8, c.toUInt8]

/-- Chunk after chunk, with the texts joined. -/
def decodeChunks (codec : TextCodecUTF16) : List (List Byte) → Option (Text × TextCodecUTF16)
  | [] => some ([], codec)
  | chunk :: chunks => do
    let (text, codec) ← codec.decode chunk
    let (texts, codec) ← codec.decodeChunks chunks
    some (text.getD [] ++ texts, codec)

/-- The byte that waits. -/
def pending (codec : TextCodecUTF16) : List Byte :=
  if codec.haveBufferedByte then [codec.bufferedByte] else []

/-- The units of all pairs of bytes. -/
def units (littleEndian : Bool) : List Byte → Text
  | [] => []
  | [_] => []
  | first :: second :: bytes => unit littleEndian first second :: units littleEndian bytes

/-- The byte behind all pairs. -/
def left : List Byte → List Byte
  | [] => []
  | [byte] => [byte]
  | _ :: _ :: bytes => left bytes

theorem units_append (littleEndian : Bool) (bytes more : List Byte) :
    units littleEndian (bytes ++ more) =
      units littleEndian bytes ++ units littleEndian (left bytes ++ more) := by
  induction bytes using left.induct with
  | case1 => rfl
  | case2 => rfl
  | case3 _ _ bytes ih => simp only [List.cons_append, units, left, ih]

theorem left_append (bytes more : List Byte) : left (bytes ++ more) = left (left bytes ++ more) := by
  induction bytes using left.induct with
  | case1 => rfl
  | case2 => rfl
  | case3 _ _ bytes ih => simpa only [List.cons_append, left] using ih

theorem left_length (bytes : List Byte) : (left bytes).length = bytes.length % 2 := by
  induction bytes using left.induct with
  | case1 => rfl
  | case2 => rfl
  | case3 _ _ bytes ih =>
    rw [left, ih, List.length_cons, List.length_cons]
    omega

theorem units_length (littleEndian : Bool) (bytes : List Byte) :
    (units littleEndian bytes).length = bytes.length / 2 := by
  induction bytes using left.induct with
  | case1 => rfl
  | case2 => simp [units]
  | case3 _ _ bytes ih =>
    rw [units, List.length_cons, ih, List.length_cons, List.length_cons]
    omega

/-- The loop stays inside the chunk and leaves the odd byte. -/
theorem decodeUnits_half (littleEndian : Bool) (bytes : List Byte) :
    decodeUnits littleEndian (bytes.length / 2) bytes =
      some (units littleEndian bytes, left bytes) := by
  induction bytes using left.induct with
  | case1 => rfl
  | case2 => simp [decodeUnits, units, left]
  | case3 _ _ bytes ih =>
    have half : (bytes.length + 1 + 1) / 2 = bytes.length / 2 + 1 := by omega
    simp only [List.length_cons, half, decodeUnits, ih, units, left, Option.bind_eq_bind,
      Option.bind_some]

/-- A chunk is decoded behind the byte that waits, and nothing is read or written outside. -/
theorem decode_spec (codec : TextCodecUTF16) (bytes : List Byte) :
    ∃ text codec', codec.decode bytes = some (text, codec') ∧
      text.getD [] = units codec.littleEndian (codec.pending ++ bytes) ∧
      codec'.pending = left (codec.pending ++ bytes) ∧
      codec'.littleEndian = codec.littleEndian := by
  obtain ⟨littleEndian, waits, buffered⟩ := codec
  cases bytes with
  | nil =>
    refine ⟨none, _, rfl, ?_, ?_, rfl⟩
    · cases waits <;> rfl
    · cases waits <;> rfl
  | cons byte p =>
    cases waits with
    | false =>
      have whole := decodeUnits_half littleEndian (byte :: p)
      have fits := units_length littleEndian (byte :: p)
      have odd := left_length (byte :: p)
      have nonempty : (byte :: p).length ≠ 0 := by simp
      rw [decode, if_neg nonempty]
      simp only [Bool.toNat_false, Nat.add_zero, Bool.false_eq_true, if_false, Option.bind_eq_bind,
        Option.bind_some, whole, List.nil_append, fits, Nat.lt_irrefl]
      by_cases rest : (byte :: p).length % 2 = 1
      · rw [rest] at odd
        obtain ⟨last, same⟩ := List.length_eq_one_iff.mp odd
        simp only [if_pos rest, same]
        exact ⟨_, _, rfl, rfl, by simp [pending, same], rfl⟩
      · simp only [if_neg rest]
        refine ⟨_, _, rfl, rfl, ?_, rfl⟩
        have none_ : left (byte :: p) = [] := List.eq_nil_of_length_eq_zero (by omega)
        simp [pending, none_]
    | true =>
      have whole := decodeUnits_half littleEndian p
      have fits := units_length littleEndian p
      have odd := left_length p
      have nonempty : (byte :: p).length ≠ 0 := by simp
      have half : (p.length + 1 + 1) / 2 = p.length / 2 + 1 := by omega
      have parity : (p.length + 1 + 1) % 2 = p.length % 2 := by omega
      rw [decode, if_neg nonempty]
      simp only [Bool.toNat_true, half, parity, if_true, Option.bind_eq_bind, Option.bind_some,
        Nat.add_sub_cancel, whole, List.singleton_append, List.length_cons, fits, Nat.lt_irrefl,
        if_false]
      by_cases rest : p.length % 2 = 1
      · rw [rest] at odd
        obtain ⟨last, same⟩ := List.length_eq_one_iff.mp odd
        simp only [if_pos rest, same]
        exact ⟨_, _, rfl, rfl, by simp [pending, left, same], rfl⟩
      · simp only [if_neg rest]
        refine ⟨_, _, rfl, rfl, ?_, rfl⟩
        have none_ : left p = [] := List.eq_nil_of_length_eq_zero (by omega)
        simp [pending, left, none_]

/-- Where the chunks are cut does not matter. -/
theorem decodeChunks_spec (codec : TextCodecUTF16) (chunks : List (List Byte)) :
    ∃ codec', codec.decodeChunks chunks =
        some (units codec.littleEndian (codec.pending ++ chunks.flatten), codec') ∧
      codec'.pending = left (codec.pending ++ chunks.flatten) := by
  induction chunks generalizing codec with
  | nil =>
    rw [List.flatten_nil, List.append_nil]
    obtain ⟨littleEndian, waits, buffered⟩ := codec
    cases waits <;> exact ⟨_, rfl, rfl⟩
  | cons chunk chunks ih =>
    obtain ⟨text, next, first, same, waits, order⟩ := decode_spec codec chunk
    obtain ⟨last, others, pending⟩ := ih next
    refine ⟨last, ?_, ?_⟩
    · simp only [decodeChunks, first, Option.bind_eq_bind, Option.bind_some, others]
      rw [same, waits, order, List.flatten_cons, ← List.append_assoc,
        units_append _ (codec.pending ++ chunk)]
    · rw [pending, waits, List.flatten_cons, ← List.append_assoc, ← left_append]

theorem lower_or_upper (c : UChar) :
    (c.toUInt8.toUInt16 ||| (c >>> 8).toUInt8.toUInt16 <<< 8) = c := by
  apply UInt16.toNat_inj.mp
  have small : c.toNat < 2 ^ 16 := c.toNat_lt
  have low : c.toNat % 2 ^ 8 < 2 ^ 8 := Nat.mod_lt _ (by decide)
  have join := Nat.shiftLeft_add_eq_or_of_lt low (c.toNat / 2 ^ 8)
  simp only [UInt16.toNat_or, UInt16.toNat_shiftLeft, UInt8.toNat_toUInt16, UInt16.toNat_toUInt8,
    UInt16.toNat_shiftRight, UInt16.reduceToNat, Nat.reduceMod, Nat.shiftRight_eq_div_pow]
  rw [Nat.mod_eq_of_lt (by omega : c.toNat / 2 ^ 8 < 2 ^ 8), Nat.or_comm]
  rw [Nat.shiftLeft_eq] at join ⊢
  rw [Nat.mod_eq_of_lt (by omega), ← join]
  omega

theorem unit_little (c : UChar) : unit true c.toUInt8 (c >>> 8).toUInt8 = c :=
  lower_or_upper c

theorem unit_big (c : UChar) : unit false (c >>> 8).toUInt8 c.toUInt8 = c :=
  (UInt16.or_comm _ _).trans (lower_or_upper c)

theorem units_encode (codec : TextCodecUTF16) (text : Text) :
    units codec.littleEndian (codec.encode text) = text := by
  obtain ⟨littleEndian, waits, buffered⟩ := codec
  induction text with
  | nil => rfl
  | cons c text ih =>
    cases littleEndian with
    | false => exact congrArg₂ List.cons (unit_big c) ih
    | true => exact congrArg₂ List.cons (unit_little c) ih

/-- The chunks of an input give together what the whole gives, and a text is read back from its bytes. -/
theorem decode_chunks_and_encode (littleEndian : Bool) (unset : Byte) :
    (∀ chunks : List (List Byte), ∃ text whole codec codec',
      (create littleEndian unset).decodeChunks chunks = some (text, codec) ∧
      (create littleEndian unset).decode chunks.flatten = some (whole, codec') ∧
      text = whole.getD []) ∧
    ∀ text : Text, ∃ back codec',
      (create littleEndian unset).decode ((create littleEndian unset).encode text) =
        some (back, codec') ∧
      back.getD [] = text := by
  constructor
  · intro chunks
    obtain ⟨codec, pieces, -⟩ := decodeChunks_spec (create littleEndian unset) chunks
    obtain ⟨whole, codec', once, same, -⟩ := decode_spec (create littleEndian unset) chunks.flatten
    exact ⟨_, whole, codec, codec', pieces, once, same.symm⟩
  · intro text
    obtain ⟨back, codec', once, same, -⟩ :=
      decode_spec (create littleEndian unset) ((create littleEndian unset).encode text)
    exact ⟨back, codec', once, same.trans (units_encode (create littleEndian unset) text)⟩

end TextCodecUTF16
end WkcBrowser.Wtf
