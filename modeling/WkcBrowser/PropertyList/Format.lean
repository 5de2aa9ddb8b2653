import WkcBrowser.Lib.Bytes
import WkcBrowser.Wtf.StringImpl

/-! The binary property list format, as anyone who reads such a list understands it. -/

namespace WkcBrowser.PropertyList.Format

open Wtf Lib.ByteOrder

inductive Plist where
  | boolean (value : Bool)
  | integer (n : Nat)
  | string (s : Text)
  | array (items : List Plist)
  | dictionary (keys values : List Plist)

/-- An object of a list, whose parts are references to other objects. The references of a dictionary
are those of all keys, then those of all values. -/
inductive Node where
  | boolean (value : Bool)
  | integer (n : Nat)
  | string (s : Text)
  | array (references : List Nat)
  | dictionary (references : List Nat)

def split (count : Nat) (bytes : List Byte) : Option (List Byte × List Byte) :=
  if count ≤ bytes.length then some (bytes.take count, bytes.drop count) else none

/-- The number in some bytes at the start. -/
def decodeNumber (width : Nat) (bytes : List Byte) : Option (Nat × List Byte) := do
  let (number, rest) ← split width bytes
  some (ofBigEndian number, rest)

/-- An object for a number has one, two, four or eight bytes of it. -/
def decodeInteger : List Byte → Option (Nat × List Byte)
  | [] => none
  | marker :: rest =>
    if marker >>> 4 = 1 ∧ marker &&& 0x0F ≤ 3 then
      decodeNumber (2 ^ (marker &&& 0x0F).toNat) rest
    else none

/-- A length that is too large for its half of the marker follows as a number. -/
def decodeLength (marker : Byte) (rest : List Byte) : Option (Nat × List Byte) :=
  if marker &&& 0x0F < 0x0F then some ((marker &&& 0x0F).toNat, rest) else decodeInteger rest

def decodeAscii (length : Nat) (bytes : List Byte) : Option Text := do
  let (characters, _) ← split length bytes
  if characters.all (· < 128) then some (characters.map UInt8.toUInt16) else none

def decodeNumbers (width : Nat) : Nat → List Byte → Option (List Nat)
  | 0, _ => some []
  | count + 1, bytes => do
    let (number, bytes) ← decodeNumber width bytes
    some (number :: (← decodeNumbers width count bytes))

def decodeUtf16 (length : Nat) (bytes : List Byte) : Option Text := do
  some ((← decodeNumbers 2 length bytes).map UInt16.ofNat)

def decodeNode (referenceSize : Nat) : List Byte → Option Node
  | [] => none
  | marker :: rest =>
    if marker = 0x08 then some (.boolean false)
    else if marker = 0x09 then some (.boolean true)
    else if marker >>> 4 = 1 then do
      some (.integer (← decodeInteger (marker :: rest)).1)
    else if marker >>> 4 = 5 then do
      let (length, rest) ← decodeLength marker rest
      some (.string (← decodeAscii length rest))
    else if marker >>> 4 = 6 then do
      let (length, rest) ← decodeLength marker rest
      some (.string (← decodeUtf16 length rest))
    else if marker >>> 4 = 0xA then do
      let (length, rest) ← decodeLength marker rest
      some (.array (← decodeNumbers referenceSize length rest))
    else if marker >>> 4 = 0xD then do
      let (length, rest) ← decodeLength marker rest
      some (.dictionary (← decodeNumbers referenceSize (2 * length) rest))
    else none

structure Trailer where
  offsetSize : Nat
  referenceSize : Nat
  count : Nat
  top : Nat
  tableStart : Nat

/-- The last thirty-two bytes, of which the first six say nothing about the list. -/
def decodeTrailer (bytes : List Byte) : Option Trailer := do
  if bytes.take 8 ≠ ascii "bplist00" ∨ bytes.length < 40 then none
  else
    let (offsetSize, rest) ← decodeNumber 1 (bytes.drop (bytes.length - 26))
    let (referenceSize, rest) ← decodeNumber 1 rest
    let (count, rest) ← decodeNumber 8 rest
    let (top, rest) ← decodeNumber 8 rest
    let (tableStart, _) ← decodeNumber 8 rest
    some { offsetSize, referenceSize, count, top, tableStart }

/-- An object of a list by its reference, through the offset table. -/
def nodeAt (bytes : List Byte) (trailer : Trailer) (reference : Nat) : Option Node := do
  if reference < trailer.count then
    let (offset, _) ← decodeNumber trailer.offsetSize
      (bytes.drop (trailer.tableStart + reference * trailer.offsetSize))
    decodeNode trailer.referenceSize (bytes.drop offset)
  else none

/-- The value of an object. Objects do not contain themselves, so that no chain of references needs
more steps than there are objects. -/
def resolve (nodes : Nat → Option Node) : Nat → Nat → Option Plist
  | 0, _ => none
  | steps + 1, reference => do
    match ← nodes reference with
    | .boolean value => some (.boolean value)
    | .integer n => some (.integer n)
    | .string s => some (.string s)
    | .array references => do
      some (.array (← references.mapM (resolve nodes steps)))
    | .dictionary references => do
      let items ← references.mapM (resolve nodes steps)
      some (.dictionary (items.take (items.length / 2)) (items.drop (items.length / 2)))

def decode (bytes : List Byte) : Option Plist := do
  let trailer ← decodeTrailer bytes
  resolve (nodeAt bytes trailer) trailer.count trailer.top

end WkcBrowser.PropertyList.Format
