import WkcBrowser.Wtf.UTF8

/-! The functions of JavaScriptCore's global object that escape strings and undo it. -/

namespace WkcBrowser.Runtime

open Lib Wtf

section
variable (c c1 c2 c3 c4 : UChar)

def isASCIIHexDigit : Bool := 0x30 ≤ c && c ≤ 0x39 || 0x61 ≤ c ||| 0x20 && c ||| 0x20 ≤ 0x66

def toASCIIHexValue : Byte := if c < 0x41 then (c - 0x30).toUInt8 else (c - 0x41 + 10).toUInt8 &&& 0xf

def convertHex : Byte := (toASCIIHexValue c1 <<< 4) ||| toASCIIHexValue c2

def convertUnicode : UChar := ((convertHex c1 c2).toUInt16 <<< 8) ||| (convertHex c3 c4).toUInt16

end

/-- A digit of the format `%X`. -/
def hexDigit (n : Byte) : UChar := if n < 10 then 0x30 + n.toUInt16 else 0x37 + n.toUInt16

/-- The format `%%%02X`. -/
def percentByte (c : Byte) : Text := [0x25, hexDigit (c >>> 4), hexDigit (c &&& 0xf)]

def encode (doNotEscape : List Byte) (str : Text) : Option Text :=
  (convertUTF16ToUTF8 true str).map fun cstr =>
    cstr.flatMap fun c => if c ≠ 0 && c ∈ doNotEscape then [c.toUInt16] else percentByte c

/-- The byte of an escape at the start of a text. -/
def escapedByte : Text → Option Byte
  | c :: c1 :: c2 :: _ =>
    if c = 0x25 && isASCIIHexDigit c1 && isASCIIHexDigit c2 then some (convertHex c1 c2) else none
  | _ => none

def escapedBytes : Nat → Text → Option (List Byte)
  | 0, _ => some []
  | count + 1, p =>
    match escapedByte p with
    | some b => (escapedBytes count (p.drop 3)).map (b :: ·)
    | none => none

/-- The length of an escaped sequence at the start of a text, and its character. -/
def escapedSequence (p : Text) : Option (Nat × Nat) :=
  match escapedByte p with
  | none => none
  | some b0 =>
    let sequenceLen := UTF8SequenceLength b0
    if sequenceLen ≠ 0 && sequenceLen * 3 ≤ p.length then
      match escapedBytes sequenceLen p with
      | none => none
      | some bytes =>
        match decodeUTF8Sequence bytes with
        | none => none
        | some character =>
          if character ≥ 0x110000 then none else some (sequenceLen * 3, character)
    else none

/-- The character of an escape with four digits at the start of a text. -/
def escapedUnicode : Text → Option UChar
  | _ :: c1 :: c2 :: c3 :: c4 :: c5 :: _ =>
    if c1 = 0x75 && isASCIIHexDigit c2 && isASCIIHexDigit c3 && isASCIIHexDigit c4 &&
        isASCIIHexDigit c5 then
      some (convertUnicode c2 c3 c4 c5)
    else none
  | _ => none

def mayUnescape (doNotUnescape : List Byte) (u : UChar) : Bool :=
  u = 0 || u ≥ 128 || u.toUInt8 ∉ doNotUnescape

/-- The loop of `decode`, in some steps. -/
def decodeFrom (doNotUnescape : List Byte) (strict : Bool) : Nat → Text → Option Text
  | 0, _ => some []
  | _, [] => some []
  | steps + 1, c :: more =>
    let literally := (decodeFrom doNotUnescape strict steps more).map (c :: ·)
    if c = 0x25 then
      match escapedSequence (c :: more) with
      | some (charLen, character) =>
        let (front, u) : Text × UChar :=
          if character ≥ 0x10000 then
            ([.ofNat (0xd800 ||| ((character - 0x10000) >>> 10))],
              .ofNat (0xdc00 ||| ((character - 0x10000) &&& 0x3ff)))
          else ([], .ofNat character)
        if mayUnescape doNotUnescape u then
          (decodeFrom doNotUnescape strict steps ((c :: more).drop charLen)).map (front ++ u :: ·)
        else literally.map (front ++ ·)
      | none =>
        if strict then none
        else
          match escapedUnicode (c :: more) with
          | some u =>
            if mayUnescape doNotUnescape u then
              (decodeFrom doNotUnescape strict steps ((c :: more).drop 6)).map (u :: ·)
            else literally
          | none => literally
    else literally

def decode (doNotUnescape : List Byte) (strict : Bool) (str : Text) : Option Text :=
  decodeFrom doNotUnescape strict str.length str

def alphanumeric : List Byte :=
  ascii "ABCDEFGHIJKLMNOPQRSTUVWXYZabcdefghijklmnopqrstuvwxyz0123456789"

def decodeURI : Text → Option Text := decode (ascii "#$&+,/:;=?@") true

def decodeURIComponent : Text → Option Text := decode [] true

def encodeURI : Text → Option Text := encode (alphanumeric ++ ascii "!#$&'()*+,-./:;=?@_~")

def encodeURIComponent : Text → Option Text := encode (alphanumeric ++ ascii "!'()*-._~")

/-- The escape of one character. -/
def escapeCharacter (u : UChar) : Text :=
  if u > 255 then
    [0x25, 0x75, hexDigit ((u >>> 12).toUInt8), hexDigit ((u >>> 8).toUInt8 &&& 0xf),
      hexDigit ((u >>> 4).toUInt8 &&& 0xf), hexDigit (u.toUInt8 &&& 0xf)]
  else if u ≠ 0 && u.toUInt8 ∈ alphanumeric ++ ascii "*+-./@_" then [u]
  else percentByte u.toUInt8

def escape (str : Text) : Text := str.flatMap escapeCharacter

/-- The loop of `unescape`, in some steps. -/
def unescapeFrom : Nat → Text → Text
  | 0, _ => []
  | _, [] => []
  | steps + 1, c :: more =>
    if c = 0x25 && 6 ≤ (c :: more).length && more.head? = some 0x75 then
      match escapedUnicode (c :: more) with
      | some u => u :: unescapeFrom steps ((c :: more).drop 6)
      | none => c :: unescapeFrom steps more
    else
      match escapedByte (c :: more) with
      | some u => u.toUInt16 :: unescapeFrom steps ((c :: more).drop 3)
      | none => c :: unescapeFrom steps more

def unescape (str : Text) : Text := unescapeFrom str.length str

end WkcBrowser.Runtime
