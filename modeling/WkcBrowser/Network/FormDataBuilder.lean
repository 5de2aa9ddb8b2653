import Mathlib.Data.List.Basic
import WkcBrowser.Lib.Bytes
import WkcBrowser.Wtf.StringImpl

/-! WebCore's `FormDataBuilder`: forms that are sent as `application/x-www-form-urlencoded`, and when
they can be read back. -/

namespace WkcBrowser.Network

open Lib Wtf

namespace FormDataBuilder

/-- The C function, which finds the end of the string too. -/
def strchr (string : List Byte) (c : Byte) : Bool := c ∈ string ++ [0]

def hexDigits : List Byte := ascii "0123456789ABCDEF"

def safeCharacters : List Byte := ascii "-._*"

/-- What one byte gives, by the byte behind it. -/
def encodeByte (c : Byte) (next : Option Byte) : List Byte :=
  if 0x41 ≤ c && c ≤ 0x5a || 0x61 ≤ c && c ≤ 0x7a || 0x30 ≤ c && c ≤ 0x39 || strchr safeCharacters c then
    [c]
  else if c = 0x20 then [0x2b]
  else if c = 0x0a || c = 0x0d && next ≠ some 0x0a then ascii "%0D%0A"
  else if c ≠ 0x0d then
    [0x25, hexDigits.getD (c >>> 4).toNat 0, hexDigits.getD (c &&& 0xf).toNat 0]
  else []

def encodeStringAsFormData : List Byte → List Byte
  | [] => []
  | c :: rest => encodeByte c rest.head? ++ encodeStringAsFormData rest

def addKeyValuePairAsFormData (buffer key value : List Byte) : List Byte :=
  let buffer := if buffer ≠ [] then buffer ++ [0x26] else buffer
  buffer ++ encodeStringAsFormData key ++ [0x3d] ++ encodeStringAsFormData value

/-- The calls for a list of pairs. -/
def addKeyValuePairs (pairs : List (List Byte × List Byte)) : List Byte :=
  pairs.foldl (fun buffer pair => addKeyValuePairAsFormData buffer pair.1 pair.2) []

/-! Reading a form. -/

/-- Letters, digits and the other characters of an encoded form. -/
def isFormCharacter (c : Byte) : Bool :=
  0x41 ≤ c && c ≤ 0x5a || 0x61 ≤ c && c ≤ 0x7a || 0x30 ≤ c && c ≤ 0x39 || c ∈ ascii "-._*+%&="

def hexValue (c : Byte) : Option Byte :=
  if 0x30 ≤ c && c ≤ 0x39 then some (c - 0x30)
  else if 0x41 ≤ c && c ≤ 0x46 then some (c - 0x37)
  else if 0x61 ≤ c && c ≤ 0x66 then some (c - 0x57)
  else none

/-- A plus stands for a space, and a percent sign with two digits for a byte. -/
def decodeFormData : List Byte → List Byte
  | [] => []
  | c :: rest =>
    if c = 0x2b then 0x20 :: decodeFormData rest
    else if c = 0x25 then
      match rest with
      | high :: low :: rest =>
        match hexValue high, hexValue low with
        | some high, some low => (high * 16 + low) :: decodeFormData rest
        | _, _ => c :: decodeFormData (high :: low :: rest)
      | rest => c :: decodeFormData rest
    else c :: decodeFormData rest

def decodePair (text : List Byte) : List Byte × List Byte :=
  (decodeFormData (text.takeWhile (· ≠ 0x3d)), decodeFormData ((text.dropWhile (· ≠ 0x3d)).drop 1))

def decodePairs (buffer : List Byte) : List (List Byte × List Byte) :=
  if buffer = [] then [] else (buffer.splitOn 0x26).map decodePair

/-- Every line break becomes a carriage return with a line feed. -/
def normalizeLineBreaks : List Byte → List Byte
  | [] => []
  | c :: rest =>
    if c = 0x0d then
      if rest.head? = some 0x0a then normalizeLineBreaks rest
      else 0x0d :: 0x0a :: normalizeLineBreaks rest
    else if c = 0x0a then 0x0d :: 0x0a :: normalizeLineBreaks rest
    else c :: normalizeLineBreaks rest

/-- What is read for one byte, by the byte behind it. -/
def normalizedByte (c : Byte) (next : Option Byte) : List Byte :=
  if c = 0x0d then if next = some 0x0a then [] else [0x0d, 0x0a]
  else if c = 0x0a then [0x0d, 0x0a]
  else [c]

theorem normalizeLineBreaks_cons (c : Byte) (rest : List Byte) :
    normalizeLineBreaks (c :: rest) = normalizedByte c rest.head? ++ normalizeLineBreaks rest := by
  rw [normalizeLineBreaks, normalizedByte]
  split_ifs <;> rfl

/-! One byte. -/

/-- Only whether a line feed is behind the byte matters. -/
theorem encodeByte_next (c : Byte) (next : Option Byte) :
    encodeByte c next = encodeByte c (if next = some 0x0a then some 0x0a else none) := by
  by_cases feed : next = some 0x0a
  · rw [if_pos feed, feed]
  · rw [if_neg feed, encodeByte, encodeByte]
    simp [feed]

/-- The characters of an encoded key or value. -/
def isEncodedCharacter (c : Byte) : Bool := isFormCharacter c && c ≠ 0x26 && c ≠ 0x3d

theorem encodeByte_clean {c : Byte} (some : c ≠ 0) (next : Option Byte) {b : Byte}
    (member : b ∈ encodeByte c next) : isEncodedCharacter b = true := by
  rw [encodeByte_next] at member
  have facts := forall_byte (fun c => c = 0 || ((encodeByte c (.some 0x0a)).all isEncodedCharacter &&
    (encodeByte c none).all isEncodedCharacter)) (by decide) c
  simp only [some, decide_false, Bool.false_or, Bool.and_eq_true, List.all_eq_true] at facts
  split at member
  · exact facts.1 b member
  · exact facts.2 b member

theorem hexValue_hexDigits (c : Byte) :
    hexValue (hexDigits.getD (c >>> 4).toNat 0) = some (c >>> 4) ∧
      hexValue (hexDigits.getD (c &&& 0xf).toNat 0) = some (c &&& 0xf) ∧
      (c >>> 4) * 16 + (c &&& 0xf) = c := by
  have facts := forall_byte (fun c => hexValue (hexDigits.getD (c >>> 4).toNat 0) = some (c >>> 4) &&
    (hexValue (hexDigits.getD (c &&& 0xf).toNat 0) = some (c &&& 0xf) &&
      (c >>> 4) * 16 + (c &&& 0xf) = c)) (by decide) c
  simpa only [Bool.and_eq_true, decide_eq_true_eq] using facts

theorem decodeFormData_escape {high low a b : Byte} (rest : List Byte) (first : hexValue high = some a)
    (second : hexValue low = some b) :
    decodeFormData (0x25 :: high :: low :: rest) = (a * 16 + b) :: decodeFormData rest := by
  rw [decodeFormData.eq_def]
  simp only [first, second]
  rfl

theorem decodeFormData_plain {c : Byte} (rest : List Byte) (plus : c ≠ 0x2b) (percent : c ≠ 0x25) :
    decodeFormData (c :: rest) = c :: decodeFormData rest := by
  rw [decodeFormData.eq_def]
  simp only [if_neg plus, if_neg percent]

theorem decodeFormData_encodeByte (c : Byte) (next : Option Byte) (rest : List Byte) :
    decodeFormData (encodeByte c next ++ rest) = normalizedByte c next ++ decodeFormData rest := by
  rw [encodeByte]
  split_ifs with safe space breaks other
  · have facts := forall_byte (fun c => !(0x41 ≤ c && c ≤ 0x5a || 0x61 ≤ c && c ≤ 0x7a ||
      0x30 ≤ c && c ≤ 0x39 || strchr safeCharacters c) ||
        (c ≠ 0x2b && c ≠ 0x25 && c ≠ 0x0d && c ≠ 0x0a)) (by decide) c
    simp only [safe, Bool.not_true, Bool.false_or, Bool.and_eq_true, decide_eq_true_eq] at facts
    obtain ⟨⟨⟨plus, percent⟩, notReturn⟩, notFeed⟩ := facts
    rw [normalizedByte, if_neg notReturn, if_neg notFeed]
    exact decodeFormData_plain rest plus percent
  · subst space
    rw [List.singleton_append, decodeFormData.eq_def]
    rfl
  · have whole : decodeFormData (ascii "%0D%0A" ++ rest) = 0x0d :: 0x0a :: decodeFormData rest := by
      have first : hexValue 0x30 = some 0 := by decide
      calc decodeFormData (ascii "%0D%0A" ++ rest)
          = (0 * 16 + 0x0d) :: decodeFormData (ascii "%0A" ++ rest) :=
            decodeFormData_escape _ first (by decide)
        _ = (0 * 16 + 0x0d) :: (0 * 16 + 0x0a) :: decodeFormData rest :=
            congrArg _ (decodeFormData_escape _ first (by decide))
        _ = 0x0d :: 0x0a :: decodeFormData rest := rfl
    have normal : normalizedByte c next = [0x0d, 0x0a] := by
      rw [normalizedByte]
      simp only [Bool.or_eq_true, Bool.and_eq_true, decide_eq_true_eq] at breaks
      obtain rfl | ⟨rfl, last⟩ := breaks
      · rfl
      · rw [if_pos rfl, if_neg last]
    rw [whole, normal]
    rfl
  · obtain ⟨first, second, back⟩ := hexValue_hexDigits c
    have feed : c ≠ 0x0a := by
      rintro rfl
      exact breaks rfl
    rw [normalizedByte, if_neg other, if_neg feed]
    simp only [List.cons_append, List.nil_append]
    rw [decodeFormData_escape rest first second, back]
  · have isReturn : c = 0x0d := not_not.mp other
    subst isReturn
    have last : next = some 0x0a := by
      by_contra none
      exact breaks (by simp [none])
    rw [normalizedByte, if_pos rfl, if_pos last]
    rfl

/-! Whole strings and lists of pairs. -/

theorem encodeStringAsFormData_clean {string : List Byte} (noNull : 0 ∉ string) {b : Byte}
    (member : b ∈ encodeStringAsFormData string) : isEncodedCharacter b = true := by
  induction string with
  | nil => cases member
  | cons c rest ih =>
    have here : c ≠ 0 := fun null => noNull (null ▸ List.mem_cons_self)
    rcases List.mem_append.mp member with first | later
    · exact encodeByte_clean here _ first
    · exact ih (fun null => noNull (List.mem_cons_of_mem _ null)) later

/-- The separators never come from a key or a value. -/
theorem separators_notMem (string : List Byte) :
    0x26 ∉ encodeStringAsFormData string ∧ 0x3d ∉ encodeStringAsFormData string := by
  induction string with
  | nil => exact ⟨List.not_mem_nil, List.not_mem_nil⟩
  | cons c rest ih =>
    have facts := forall_byte (fun c => !((encodeByte c (some 0x0a)).contains 0x26 ||
      (encodeByte c (some 0x0a)).contains 0x3d || (encodeByte c none).contains 0x26 ||
        (encodeByte c none).contains 0x3d)) (by decide) c
    simp only [Bool.not_or, Bool.and_eq_true, Bool.not_eq_true', List.contains_eq_mem,
      decide_eq_false_iff_not] at facts
    obtain ⟨⟨⟨one, two⟩, three⟩, four⟩ := facts
    have apart : 0x26 ∉ encodeByte c rest.head? ∧ 0x3d ∉ encodeByte c rest.head? := by
      rw [encodeByte_next]
      split
      · exact ⟨one, two⟩
      · exact ⟨three, four⟩
    rw [encodeStringAsFormData]
    exact ⟨fun member => (List.mem_append.mp member).elim apart.1 ih.1,
      fun member => (List.mem_append.mp member).elim apart.2 ih.2⟩

theorem decodeFormData_encodeString (string : List Byte) :
    decodeFormData (encodeStringAsFormData string) = normalizeLineBreaks string := by
  induction string with
  | nil => rfl
  | cons c rest ih =>
    rw [encodeStringAsFormData, decodeFormData_encodeByte, ih, normalizeLineBreaks_cons]

/-- The text for one pair. -/
def encodePair (pair : List Byte × List Byte) : List Byte :=
  encodeStringAsFormData pair.1 ++ 0x3d :: encodeStringAsFormData pair.2

theorem addKeyValuePairs_eq (pairs : List (List Byte × List Byte)) :
    addKeyValuePairs pairs = [0x26].intercalate (pairs.map encodePair) := by
  have later : ∀ (pairs : List (List Byte × List Byte)) (buffer : List Byte), buffer ≠ [] →
      pairs.foldl (fun buffer pair => addKeyValuePairAsFormData buffer pair.1 pair.2) buffer =
        [0x26].intercalate (buffer :: pairs.map encodePair) := by
    intro pairs
    induction pairs with
    | nil => exact fun buffer _ => (List.append_nil buffer).symm
    | cons pair pairs ih =>
      intro buffer filled
      have next : addKeyValuePairAsFormData buffer pair.1 pair.2 =
          buffer ++ [0x26] ++ encodePair pair := by
        simp [addKeyValuePairAsFormData, encodePair, filled]
      rw [List.foldl_cons, next, ih _ (by simp)]
      cases pairs <;> simp [List.intercalate]
  cases pairs with
  | nil => rfl
  | cons pair pairs =>
    have first : addKeyValuePairAsFormData [] pair.1 pair.2 = encodePair pair := by
      simp [addKeyValuePairAsFormData, encodePair]
    rw [addKeyValuePairs, List.foldl_cons, first, later pairs _ (by simp [encodePair])]
    rfl

theorem separator_notMem_encodePair (pair : List Byte × List Byte) : 0x26 ∉ encodePair pair := by
  intro member
  rcases List.mem_append.mp member with key | value
  · exact (separators_notMem pair.1).1 key
  · rcases List.mem_cons.mp value with equals | value
    · cases equals
    · exact (separators_notMem pair.2).1 value

theorem decodePair_encodePair (pair : List Byte × List Byte) :
    decodePair (encodePair pair) = (normalizeLineBreaks pair.1, normalizeLineBreaks pair.2) := by
  have plain : ∀ b ∈ encodeStringAsFormData pair.1, (b ≠ 0x3d : Bool) = true := by
    intro b member
    rw [decide_eq_true_eq]
    rintro rfl
    exact (separators_notMem pair.1).2 member
  rw [decodePair, encodePair, List.takeWhile_append_of_pos plain, List.dropWhile_append_of_pos plain]
  simp [decodeFormData_encodeString]

theorem decodePairs_addKeyValuePairs (pairs : List (List Byte × List Byte)) :
    decodePairs (addKeyValuePairs pairs) =
      pairs.map fun pair => (normalizeLineBreaks pair.1, normalizeLineBreaks pair.2) := by
  rw [addKeyValuePairs_eq, decodePairs]
  cases pairs with
  | nil => rfl
  | cons pair pairs =>
    have filled : [0x26].intercalate ((pair :: pairs).map encodePair) ≠ [] := by
      cases pairs <;> simp [List.intercalate, encodePair]
    have apart : ∀ text ∈ (pair :: pairs).map encodePair, 0x26 ∉ text := by
      intro text member
      obtain ⟨one, -, rfl⟩ := List.mem_map.mp member
      exact separator_notMem_encodePair one
    rw [if_neg filled, List.splitOn_intercalate 0x26 apart (by simp), List.map_map]
    exact List.map_congr_left fun one _ => decodePair_encodePair one

/-- What is in a text that is put together with a separator. -/
theorem mem_intercalate {b separator : Byte} {texts : List (List Byte)} :
    (∀ text ∈ texts, b ∈ text → b ∈ [separator].intercalate texts) ∧
      (b ∈ [separator].intercalate texts → b = separator ∨ ∃ text ∈ texts, b ∈ text) := by
  unfold List.intercalate
  induction texts with
  | nil => simp
  | cons text texts ih =>
    cases texts with
    | nil => simp +contextual
    | cons next texts =>
      simp only [List.intersperse_cons_cons, List.flatten_cons, List.mem_append, List.mem_singleton]
      constructor
      · intro other member inside
        rcases List.mem_cons.mp member with rfl | later
        · exact .inl inside
        · exact .inr (.inr (ih.1 other later inside))
      · rintro (first | same | later)
        · exact .inr ⟨text, List.mem_cons_self, first⟩
        · exact .inl same
        · rcases ih.2 later with same | ⟨other, member, inside⟩
          · exact .inl same
          · exact .inr ⟨other, List.mem_cons_of_mem _ member, inside⟩

theorem null_mem_encodeStringAsFormData {string : List Byte} (null : 0 ∈ string) :
    0 ∈ encodeStringAsFormData string := by
  induction string with
  | nil => cases null
  | cons c rest ih =>
    refine List.mem_append.mpr ?_
    rcases List.mem_cons.mp null with rfl | later
    · exact .inl (by rw [encodeByte_next]; split <;> decide)
    · exact .inr (ih later)

theorem addKeyValuePairs_clean_iff (pairs : List (List Byte × List Byte)) :
    (∀ b ∈ addKeyValuePairs pairs, isFormCharacter b = true) ↔
      ∀ pair ∈ pairs, 0 ∉ pair.1 ∧ 0 ∉ pair.2 := by
  rw [addKeyValuePairs_eq]
  constructor
  · intro clean pair member
    have listed : encodePair pair ∈ pairs.map encodePair := List.mem_map.mpr ⟨pair, member, rfl⟩
    have absent : 0 ∉ encodePair pair := by
      intro null
      have character := clean 0 (mem_intercalate.1 _ listed null)
      revert character
      decide
    constructor
    · exact fun null => absent (List.mem_append_left _ (null_mem_encodeStringAsFormData null))
    · intro null
      have inside := null_mem_encodeStringAsFormData null
      exact absent (List.mem_append_right _ (List.mem_cons_of_mem _ inside))
  · intro noNull b member
    have encoded : ∀ {b : Byte}, isEncodedCharacter b = true → isFormCharacter b = true :=
      fun is => (Bool.and_eq_true_iff.mp (Bool.and_eq_true_iff.mp is).1).1
    rcases mem_intercalate.2 member with rfl | ⟨text, listed, inside⟩
    · decide
    · obtain ⟨pair, member, rfl⟩ := List.mem_map.mp listed
      obtain ⟨key, value⟩ := noNull pair member
      rcases List.mem_append.mp inside with first | second
      · exact encoded (encodeStringAsFormData_clean key first)
      · rcases List.mem_cons.mp second with rfl | second
        · decide
        · exact encoded (encodeStringAsFormData_clean value second)

/-- An encoded form has only characters of a form and is read back, with its line breaks normalised,
exactly when no key and no value has a null character. -/
theorem decodePairs_iff (pairs : List (List Byte × List Byte)) :
    ((∀ b ∈ addKeyValuePairs pairs, isFormCharacter b = true) ∧
      decodePairs (addKeyValuePairs pairs) =
        pairs.map fun pair => (normalizeLineBreaks pair.1, normalizeLineBreaks pair.2)) ↔
      ∀ pair ∈ pairs, 0 ∉ pair.1 ∧ 0 ∉ pair.2 :=
  (and_iff_left (decodePairs_addKeyValuePairs pairs)).trans (addKeyValuePairs_clean_iff pairs)

/-- The null character is sent as it is. -/
theorem not_isFormCharacter : ¬∀ b ∈ addKeyValuePairs [([0x61], [0x00])], isFormCharacter b = true := by
  decide

end FormDataBuilder

end WkcBrowser.Network
