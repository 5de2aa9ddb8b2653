import WkcBrowser.PropertyList.Agreement
import WkcBrowser.PropertyList.Format

/-! The bytes of an object decode to the object. -/

namespace WkcBrowser.PropertyList

open Wtf Lib.ByteOrder Format

section
variable {target : Target} {rest : List Byte}

theorem split_append (bytes rest : List Byte) :
    split bytes.length (bytes ++ rest) = some (bytes, rest) := by
  rw [split, if_pos (by rw [List.length_append]; omega), List.take_left, List.drop_left]

theorem decodeNumber_bigEndian {width n : Nat} (short : n < 256 ^ width) :
    decodeNumber width (bigEndian width n ++ rest) = some (n, rest) := by
  have parts := split_append (bigEndian width n) rest
  rw [length_bigEndian] at parts
  rw [decodeNumber, parts]
  exact congrArg (fun number => some (number, rest)) (ofBigEndian_bigEndian short)

theorem decodeNumbers_bigEndian {width : Nat} (numbers : List Nat) (rest : List Byte)
    (short : ∀ n ∈ numbers, n < 256 ^ width) :
    decodeNumbers width numbers.length (numbers.flatMap (bigEndian width) ++ rest) =
      some numbers := by
  induction numbers with
  | nil => rfl
  | cons n numbers ih =>
    rw [List.forall_mem_cons] at short
    rw [List.length_cons, decodeNumbers, List.flatMap_cons, List.append_assoc,
      decodeNumber_bigEndian short.1]
    simp only [Option.bind_eq_bind, Option.bind_some, ih short.2]

theorem decodeInteger_integerBytes {n : Nat} (rest : List Byte) (short : n < 2 ^ target.sizeBits) :
    decodeInteger (integerBytes target n ++ rest) = some (n, rest) := by
  have number : ∀ {marker : Byte} {width : Nat}, marker >>> 4 = 1 → marker &&& 0x0F ≤ 3 →
      2 ^ (marker &&& 0x0F).toNat = width → n < 256 ^ width →
      decodeInteger (marker :: bigEndian width n ++ rest) = some (n, rest) := by
    rintro marker width high low rfl short
    rw [List.cons_append, decodeInteger, if_pos ⟨high, low⟩]
    exact decodeNumber_bigEndian short
  unfold integerBytes
  split
  · exact number (by decide) (by decide) (by decide) (by omega)
  · split
    · exact number (by decide) (by decide) (by decide) (by omega)
    · cases target with
      | lp64 =>
        dsimp only
        split
        · exact number (by decide) (by decide) (by decide) (by omega)
        · exact number (by decide) (by decide) (by decide) short
      | ilp32 => exact number (by decide) (by decide) (by decide) short

/-- Markers whose lower half is for a length. -/
def lengthMarkers : List Byte :=
  [asciiStringMarkerByte, unicodeStringMarkerByte, arrayMarkerByte, dictionaryMarkerByte]

theorem small_length : ∀ marker ∈ lengthMarkers, ∀ length < 15,
    (marker ||| UInt8.ofNat length) >>> 4 = marker >>> 4 ∧
      (marker ||| UInt8.ofNat length) &&& 0x0F < 0x0F ∧
      ((marker ||| UInt8.ofNat length) &&& 0x0F).toNat = length := by
  simp only [lengthMarkers, List.forall_mem_cons, List.not_mem_nil, false_implies, implies_true, and_true]
  decide

theorem separate_length : ∀ marker ∈ lengthMarkers,
    (marker ||| 0x0F) >>> 4 = marker >>> 4 ∧ ¬(marker ||| 0x0F) &&& 0x0F < 0x0F := by
  simp only [lengthMarkers, List.forall_mem_cons, List.not_mem_nil, false_implies, implies_true, and_true]
  decide

theorem marker_kinds : ∀ marker ∈ lengthMarkers, marker >>> 4 ≠ 0 ∧ marker >>> 4 ≠ 1 ∧
    (marker >>> 4 ≠ 5 → marker >>> 4 ≠ 6 → marker >>> 4 ≠ 0xA → marker >>> 4 = 0xD) := by
  simp only [lengthMarkers, List.forall_mem_cons, List.not_mem_nil, false_implies, implies_true, and_true]
  refine ⟨?_, ?_, ?_, ?_⟩ <;> decide

theorem decodeLength_markerBytes {marker : Byte} (known : marker ∈ lengthMarkers) {length : Nat}
    (short : length < 2 ^ target.sizeBits) :
    ∃ first more, markerBytes target marker (marker ||| 0x0F) length = first :: more ∧
      first >>> 4 = marker >>> 4 ∧ ∀ rest, decodeLength first (more ++ rest) = some (length, rest) := by
  unfold markerBytes
  split
  · rename_i small
    obtain ⟨high, low, same⟩ := small_length marker known length (Nat.lt_succ_of_le small)
    exact ⟨_, _, rfl, high, fun rest => by rw [decodeLength, if_pos low, same, List.nil_append]⟩
  · obtain ⟨high, low⟩ := separate_length marker known
    exact ⟨_, _, rfl, high, fun rest => by
      rw [decodeLength, if_neg low, decodeInteger_integerBytes rest short]⟩

theorem toUInt16_toUInt8 {character : UChar} (ascii : character < 128) :
    character.toUInt8.toUInt16 = character := by
  apply UInt16.toNat_inj.mp
  have small : character.toNat < 128 := ascii
  simp only [UInt8.toNat_toUInt16, UInt16.toNat_toUInt8]
  omega

theorem decodeAscii_of_all {s : Text} (ascii : charactersAreAllASCII s) :
    decodeAscii s.length (s.map UInt16.toUInt8 ++ rest) = some s := by
  have parts := split_append (s.map UInt16.toUInt8) rest
  rw [List.length_map] at parts
  have small : ∀ character ∈ s, character < 128 := by
    simpa [charactersAreAllASCII] using ascii
  have all : (s.map UInt16.toUInt8).all (· < 128) := by
    rw [List.all_map, List.all_eq_true]
    intro character member
    have small : character.toNat < 128 := small character member
    simp only [Function.comp_apply, decide_eq_true_eq, UInt8.lt_iff_toNat_lt, UInt16.toNat_toUInt8]
    change character.toNat % 256 < 128
    omega
  have same : (s.map UInt16.toUInt8).map UInt8.toUInt16 = s := by
    rw [List.map_map]
    exact (List.map_congr_left fun character member =>
      toUInt16_toUInt8 (small character member)).trans (List.map_id _)
  simp only [decodeAscii, parts, Option.bind_eq_bind, Option.bind_some, if_pos all, same]

theorem utf16_bigEndian (character : UChar) :
    [(character >>> 8).toUInt8, character.toUInt8] = bigEndian 2 character.toNat := by
  have high : (character >>> 8).toUInt8 = UInt8.ofNat (character.toNat >>> (8 * 1)) := by
    apply UInt8.toNat_inj.mp
    simp [UInt16.toNat_shiftRight]
  have low : character.toUInt8 = UInt8.ofNat (character.toNat >>> (8 * 0)) := by
    apply UInt8.toNat_inj.mp
    simp
  rw [high, low]
  rfl

theorem decodeUtf16_flatMap (s : Text) :
    decodeUtf16 s.length
      ((s.flatMap fun character : UChar => [(character >>> 8).toUInt8, character.toUInt8]) ++ rest) =
        some s := by
  simp only [utf16_bigEndian]
  have numbers : decodeNumbers 2 (s.map UInt16.toNat).length
      ((s.map UInt16.toNat).flatMap (bigEndian 2) ++ rest) = _ :=
    decodeNumbers_bigEndian _ rest (by simpa using fun character _ => UInt16.toNat_lt character)
  rw [List.length_map, List.flatMap_map] at numbers
  rw [decodeUtf16, numbers]
  simp [Function.comp_def]

end

/-- What there is to read of a C string. -/
def cStringNode (s : List Byte) : Option Node :=
  let characters := s.take (unsigned s.length)
  if characters.all (· < 128) then some (.string (characters.map UInt8.toUInt16)) else none

/-- An object as its readers see it. -/
def Object.node (objects : List Object) : Object → Option Node
  | .booleanTrue => some (.boolean true)
  | .integer n => some (.integer n)
  | .string s | .uniqueString s => some (.string s)
  | .uniqueCString s => cStringNode s
  | .integerArray integers => some (.array (integers.map fun n => objects.idxOf (.integer n)))
  | .array references => some (.array references)
  | .dictionary references => some (.dictionary references)

/-- The references of an object. -/
def Object.references (objects : List Object) : Object → List Nat
  | .integerArray integers => integers.map fun n => objects.idxOf (.integer n)
  | .array references | .dictionary references => references
  | _ => []

/-- An object whose numbers fit into their bytes. -/
structure Object.Fits (frame : Frame) (object : Object) : Prop where
  integer : ∀ n, object = .integer n → n < 2 ^ 31
  even : ∀ references, object = .dictionary references → references.length % 2 = 0
  bytes : (frame.bytes object).length < 2 ^ frame.target.sizeBits
  positive : 0 < frame.referenceSize
  references : ∀ reference ∈ object.references frame.objects, reference < 256 ^ frame.referenceSize

section
variable {frame : Frame} {rest : List Byte}

/-- A marker with a length says what follows it. -/
theorem decodeNode_marked {marker : Byte} (known : marker ∈ lengthMarkers) {length : Nat}
    (short : length < 2 ^ frame.target.sizeBits) :
    decodeNode frame.referenceSize
        (markerBytes frame.target marker (marker ||| 0x0F) length ++ rest) =
      if marker >>> 4 = 5 then (decodeAscii length rest).bind fun s => some (.string s)
      else if marker >>> 4 = 6 then (decodeUtf16 length rest).bind fun s => some (.string s)
      else if marker >>> 4 = 0xA then
        (decodeNumbers frame.referenceSize length rest).bind fun references =>
          some (.array references)
      else
        (decodeNumbers frame.referenceSize (2 * length) rest).bind fun references =>
          some (.dictionary references) := by
  obtain ⟨first, more, bytes, high, found⟩ := decodeLength_markerBytes known short
  have large := marker_kinds marker known
  have eight : first ≠ 0x08 := by
    rintro rfl
    exact large.1 high.symm
  have nine : first ≠ 0x09 := by
    rintro rfl
    exact large.1 high.symm
  rw [bytes, List.cons_append, decodeNode, if_neg eight, if_neg nine, high, if_neg large.2.1,
    found rest]
  split
  · rfl
  split
  · rfl
  split
  · rfl
  · rw [if_pos (large.2.2 ‹_› ‹_› ‹_›)]
    rfl

theorem decodeNode_integer {n : Nat} (short : n < 2 ^ frame.target.sizeBits) :
    decodeNode frame.referenceSize (integerBytes frame.target n ++ rest) = some (.integer n) := by
  have marked : ∃ marker more, integerBytes frame.target n = marker :: more ∧ marker >>> 4 = 1 ∧
      marker ≠ 0x08 ∧ marker ≠ 0x09 := by
    unfold integerBytes
    split
    · exact ⟨_, _, rfl, by decide⟩
    split
    · exact ⟨_, _, rfl, by decide⟩
    split
    · split <;> exact ⟨_, _, rfl, by decide⟩
    · exact ⟨_, _, rfl, by decide⟩
  have number := decodeInteger_integerBytes rest short
  obtain ⟨marker, more, bytes, high, eight, nine⟩ := marked
  rw [bytes, List.cons_append] at number ⊢
  rw [decodeNode, if_neg eight, if_neg nine, if_pos high, number]
  rfl

theorem decodeNode_string (s : Text) (short : s.length < 2 ^ frame.target.sizeBits) :
    decodeNode frame.referenceSize (stringBytes frame.target s ++ rest) = some (.string s) := by
  unfold stringBytes
  split
  · rename_i ascii
    rw [List.append_assoc]
    refine (decodeNode_marked (show asciiStringMarkerByte ∈ lengthMarkers by decide) short).trans ?_
    rw [if_pos (by decide), decodeAscii_of_all ascii]
    rfl
  · rw [List.append_assoc]
    refine (decodeNode_marked (show unicodeStringMarkerByte ∈ lengthMarkers by decide) short).trans ?_
    rw [if_neg (by decide), if_pos (by decide), decodeUtf16_flatMap]
    rfl

theorem decodeNode_cString (s : List Byte)
    (short : unsigned s.length < 2 ^ frame.target.sizeBits) :
    decodeNode frame.referenceSize (cStringBytes frame.target s ++ rest) = cStringNode s := by
  unfold cStringBytes
  have length : (s.take (unsigned s.length)).length = unsigned s.length := by
    rw [List.length_take]
    exact Nat.min_eq_left (Nat.mod_le ..)
  have parts := split_append (s.take (unsigned s.length)) rest
  rw [length] at parts
  rw [List.append_assoc]
  refine (decodeNode_marked (show asciiStringMarkerByte ∈ lengthMarkers by decide) short).trans ?_
  rw [if_pos (by decide), decodeAscii, parts, cStringNode]
  simp only [Option.bind_eq_bind, Option.bind_some]
  split <;> rfl

/-- Every object is read as it was written. -/
theorem decodeNode_bytes {object : Object} (fits : object.Fits frame) :
    decodeNode frame.referenceSize (frame.bytes object ++ rest) = object.node frame.objects := by
  have bytes := fits.bytes
  rw [Frame.length_bytes] at bytes
  have counted : object.referenceCount < 2 ^ frame.target.sizeBits := by
    have most := Nat.le_mul_of_pos_left object.referenceCount fits.positive
    omega
  cases object with
  | booleanTrue => rfl
  | integer n =>
    have short : n < 2 ^ frame.target.sizeBits :=
      Nat.lt_of_lt_of_le (fits.integer n rfl) (by cases frame.target <;> decide)
    exact decodeNode_integer short
  | string s | uniqueString s =>
    apply decodeNode_string
    change stringByteCount frame.target s + _ < _ at bytes
    unfold stringByteCount at bytes
    omega
  | uniqueCString s =>
    apply decodeNode_cString
    change _ + unsigned s.length + _ < _ at bytes
    omega
  | integerArray integers =>
    change integers.length < _ at counted
    have numbers := decodeNumbers_bigEndian _ rest fits.references
    rw [Object.references, List.length_map] at numbers
    rw [Frame.bytes, List.append_assoc]
    refine (decodeNode_marked (show arrayMarkerByte ∈ lengthMarkers by decide) (by omega)).trans ?_
    rw [if_neg (by decide), if_neg (by decide), if_pos (by decide), Frame.references, numbers]
    rfl
  | array references =>
    change references.length < _ at counted
    have numbers := decodeNumbers_bigEndian _ rest fits.references
    rw [Object.references] at numbers
    rw [Frame.bytes, List.append_assoc]
    refine (decodeNode_marked (show arrayMarkerByte ∈ lengthMarkers by decide) (by omega)).trans ?_
    rw [if_neg (by decide), if_neg (by decide), if_pos (by decide), Frame.references, numbers]
    rfl
  | dictionary references =>
    change references.length < _ at counted
    have even := fits.even references rfl
    have numbers := decodeNumbers_bigEndian _ rest fits.references
    rw [Object.references] at numbers
    rw [Frame.bytes, List.append_assoc]
    refine (decodeNode_marked (show dictionaryMarkerByte ∈ lengthMarkers by decide) (by omega)).trans
      ?_
    rw [if_neg (by decide), if_neg (by decide), if_neg (by decide), Frame.references,
      show 2 * (references.length / 2) = references.length by omega, numbers]
    rfl

end

end WkcBrowser.PropertyList
