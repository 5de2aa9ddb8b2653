import WkcBrowser.Lib.Bytes
import WkcBrowser.PropertyList.Plan

/-! The second pass over a property list. One buffer takes the header, the objects, the offset table
and the trailer. The objects grow from its start; the references of the aggregates that are not
finished grow backwards from the offset table. -/

namespace WkcBrowser.PropertyList

open Wtf Lib.ByteOrder

def headerSize : Nat := 8
def trailerSize : Nat := 32

def booleanTrueMarkerByte : Byte := 0x09
def oneByteIntegerMarkerByte : Byte := 0x10
def twoByteIntegerMarkerByte : Byte := 0x11
def fourByteIntegerMarkerByte : Byte := 0x12
def eightByteIntegerMarkerByte : Byte := 0x13
def asciiStringMarkerByte : Byte := 0x50
def asciiStringWithSeparateLengthMarkerByte : Byte := 0x5F
def unicodeStringMarkerByte : Byte := 0x60
def unicodeStringWithSeparateLengthMarkerByte : Byte := 0x6F
def arrayMarkerByte : Byte := 0xA0
def arrayWithSeparateLengthMarkerByte : Byte := 0xAF
def dictionaryMarkerByte : Byte := 0xD0
def dictionaryWithSeparateLengthMarkerByte : Byte := 0xDF

/-- The loop of `bytesNeeded`, whose mask covers all bytes but the lowest `bytes`. -/
def bytesNeededFrom (count : Nat) : Nat → Nat → Nat
  | 0, bytes => bytes
  | steps + 1, bytes =>
    if count >>> (8 * bytes) ≠ 0 then bytesNeededFrom count steps (bytes + 1) else bytes

section
variable (target : Target)

def bytesNeeded (count : Nat) : Option Nat :=
  if count = 0 then none else some (bytesNeededFrom count (target.sizeBits / 8 - 1) 1)

/-- The bytes of an integer object. -/
def integerBytes (integer : Nat) : List Byte :=
  if integer ≤ 0xFF then oneByteIntegerMarkerByte :: bigEndian 1 integer
  else if integer ≤ 0xFFFF then twoByteIntegerMarkerByte :: bigEndian 2 integer
  else
    match target with
    | .lp64 =>
      if integer ≤ 0xFFFFFFFF then fourByteIntegerMarkerByte :: bigEndian 4 integer
      else eightByteIntegerMarkerByte :: bigEndian 8 integer
    | .ilp32 => fourByteIntegerMarkerByte :: bigEndian 4 integer

/-- The marker of an object with its length, which is in the marker or follows it. -/
def markerBytes (marker separate : Byte) (length : Nat) : List Byte :=
  if length ≤ maxLengthInMarkerByte then [marker ||| UInt8.ofNat length]
  else separate :: integerBytes target length

def stringBytes (string : Text) : List Byte :=
  if charactersAreAllASCII string then
    markerBytes target asciiStringMarkerByte asciiStringWithSeparateLengthMarkerByte string.length ++
      string.map UInt16.toUInt8
  else
    markerBytes target unicodeStringMarkerByte unicodeStringWithSeparateLengthMarkerByte
        string.length ++
      string.flatMap fun character : UChar => [(character >>> 8).toUInt8, character.toUInt8]

def cStringBytes (string : List Byte) : List Byte :=
  let length := unsigned string.length
  markerBytes target asciiStringMarkerByte asciiStringWithSeparateLengthMarkerByte length ++
    string.take length

end

/-- The pointers are offsets into the buffer. -/
structure Serializer where
  plan : Plan
  objectReferenceSize : Nat
  offsetTableStart : Nat
  offsetSize : Nat
  buffer : List Byte
  currentByte : Nat
  currentObjectReference : Nat
  currentAggregateBufferByte : Nat

namespace Serializer
variable (s : Serializer)

/-- A write to the buffer. -/
def put (destination : Nat) (bytes : List Byte) : Option Serializer :=
  if destination + bytes.length ≤ s.buffer.length then
    some { s with buffer :=
      s.buffer.take destination ++ bytes ++ s.buffer.drop (destination + bytes.length) }
  else none

/-- `ASSERT(m_currentByte <= m_currentAggregateBufferByte)`. -/
def inOrder : Option Serializer :=
  if s.currentByte ≤ s.currentAggregateBufferByte then some s else none

def appendByte (byte : Byte) : Option Serializer := do
  let s ← s.put s.currentByte [byte]
  { s with currentByte := s.currentByte + 1 }.inOrder

def appendBytes : List Byte → Serializer → Option Serializer
  | [], s => some s
  | byte :: bytes, s => do appendBytes bytes (← s.appendByte byte)

/-- The entry of the next object in the offset table. -/
def startObject : Option Serializer :=
  let reference := s.currentObjectReference
  let s := { s with currentObjectReference := reference + 1 }
  s.put (s.offsetTableStart + reference * s.offsetSize) (bigEndian s.offsetSize s.currentByte)

/-- The highest byte comes first and ends up last. -/
def addAggregateObjectReference (reference : Nat) : Option Serializer := do
  let size := s.objectReferenceSize
  if s.currentAggregateBufferByte < size then none
  else
    let s ← s.put (s.currentAggregateBufferByte - size) (bigEndian size reference).reverse
    { s with currentAggregateBufferByte := s.currentAggregateBufferByte - size }.inOrder

/-- An object that is planned for now is appended; any other was planned for an earlier time. -/
def appendOnce (reference : Nat) (append : Serializer → Option Serializer) : Option Serializer :=
  if s.currentObjectReference ≠ reference then
    if reference < s.currentObjectReference then some s else none
  else append s

def integerObjectReference (integer : Nat) : Option Nat :=
  if integer = 0 then s.plan.integerZeroObjectReference else s.plan.integers integer

section
variable (target : Target)

def appendIntegerObject (integer : Nat) : Option Serializer := do
  appendBytes (integerBytes target integer) (← s.startObject)

def appendStringObject (string : Text) : Option Serializer := do
  appendBytes (stringBytes target string) (← s.startObject)

def appendCStringObject (string : List Byte) : Option Serializer := do
  appendBytes (cStringBytes target string) (← s.startObject)

def appendObjectReferences : List Nat → Serializer → Option Serializer
  | [], s => some s
  | integer :: integers, s => do
    let reference ← s.integerObjectReference integer
    appendObjectReferences integers (← appendBytes (bigEndian s.objectReferenceSize reference) s)

/-- The index is an `unsigned` and never reaches a size that does not fit one. -/
def appendIntegerArrayObject (integers : List Nat) : Option Serializer := do
  let s ← s.startObject
  let s ← appendBytes (markerBytes target arrayMarkerByte arrayWithSeparateLengthMarkerByte
    integers.length) s
  if integers.length < 2 ^ 32 then appendObjectReferences integers s else none

def writeBooleanTrue : Option (Nat × Serializer) := do
  let reference ← s.plan.booleanTrueObjectReference
  let s ← s.appendOnce reference fun s => do
    appendBytes [booleanTrueMarkerByte] (← s.startObject)
  some (reference, ← s.addAggregateObjectReference reference)

def writeIntegerWithoutAddingAggregateObjectReference (integer : Nat) :
    Option (Nat × Serializer) := do
  let reference ← s.integerObjectReference integer
  some (reference, ← s.appendOnce reference fun s => s.appendIntegerObject target integer)

def writeInteger (integer : Nat) : Option (Nat × Serializer) := do
  let (reference, s) ← s.writeIntegerWithoutAddingAggregateObjectReference target integer
  some (reference, ← s.addAggregateObjectReference reference)

def writeString (string : Text) : Option (Nat × Serializer) := do
  let reference ← s.plan.strings string
  let s ← s.appendOnce reference fun s => s.appendStringObject target string
  some (reference, ← s.addAggregateObjectReference reference)

def writeIntegers : List Nat → Serializer → Option Serializer
  | [], s => some s
  | integer :: integers, s => do
    let (_, s) ← s.writeIntegerWithoutAddingAggregateObjectReference target integer
    writeIntegers integers s

def writeIntegerArray (integers : List Nat) : Option (Nat × Serializer) := do
  let reference ← s.plan.integerArrays integers
  let s ← writeIntegers target integers s
  let s ← s.appendOnce reference fun s => s.appendIntegerArrayObject target integers
  some (reference, ← s.addAggregateObjectReference reference)

def writeUniqueString (string : Text) : Option (Nat × Serializer) := do
  let reference := s.currentObjectReference
  let s ← s.addAggregateObjectReference reference
  some (reference, ← s.appendStringObject target string)

def writeUniqueCString (string : List Byte) : Option (Nat × Serializer) := do
  let reference := s.currentObjectReference
  let s ← s.addAggregateObjectReference reference
  some (reference, ← s.appendCStringObject target string)

/-- `writeArrayStart` and `writeDictionaryStart`. -/
def writeAggregateStart : Nat × Serializer :=
  (s.currentAggregateBufferByte, s)

/-- `moveAndReverseBytes` from the aggregate buffer to the objects. -/
def moveAggregate (count : Nat) : Option Serializer :=
  let source := s.currentAggregateBufferByte - count
  s.put s.currentByte ((s.buffer.drop source).take count).reverse

/-- The aggregate takes its references from the aggregate buffer, `unit` bytes for each element. -/
def appendAggregate (unit : Nat) (marker separate : Byte) (savedAggregateBufferOffset : Nat) :
    Option Serializer := do
  let s ← s.startObject
  let count := savedAggregateBufferOffset - s.currentAggregateBufferByte
  if count = 0 then none
  else if count % unit ≠ 0 then none
  else
    let s ← appendBytes (markerBytes target marker separate (count / unit)) s
    let s ← { s with currentAggregateBufferByte := savedAggregateBufferOffset }.inOrder
    let s ← s.moveAggregate count
    { s with currentByte := s.currentByte + count }.inOrder

def writeArrayEnd (savedAggregateBufferOffset : Nat) : Option (Nat × Serializer) := do
  let reference := s.currentObjectReference
  let s ← s.appendAggregate target s.objectReferenceSize arrayMarkerByte
    arrayWithSeparateLengthMarkerByte savedAggregateBufferOffset
  if s.currentObjectReference < s.plan.currentObjectReference then
    some (reference, ← s.addAggregateObjectReference reference)
  else if s.currentObjectReference = s.plan.currentObjectReference then some (reference, s)
  else none

def writeDictionaryEnd (savedAggregateBufferOffset : Nat) : Option (Nat × Serializer) := do
  let reference := s.currentObjectReference
  let s ← s.appendAggregate target (s.objectReferenceSize * 2) dictionaryMarkerByte
    dictionaryWithSeparateLengthMarkerByte savedAggregateBufferOffset
  if s.currentObjectReference ≠ s.plan.currentObjectReference then
    some (reference, ← s.addAggregateObjectReference reference)
  else some (reference, s)

end

end Serializer

section
variable (target : Target)

def serializerStream : ObjectStream Serializer where
  writeBooleanTrue := Serializer.writeBooleanTrue
  writeInteger integer s := s.writeInteger target integer
  writeString string s := s.writeString target string
  writeIntegerArray integers s := s.writeIntegerArray target integers
  writeUniqueString string s := s.writeUniqueString target string
  writeUniqueCString string s := s.writeUniqueCString target string
  writeArrayStart := Serializer.writeAggregateStart
  writeArrayEnd saved s := s.writeArrayEnd target saved
  writeDictionaryStart := Serializer.writeAggregateStart
  writeDictionaryEnd saved s := s.writeDictionaryEnd target saved

/-- The sizes that the constructor derives from a plan. -/
structure Layout where
  objectReferenceSize : Nat
  offsetTableStart : Nat
  offsetSize : Nat
  bufferSize : Nat
deriving DecidableEq

def layout (plan : Plan) : Option Layout := do
  let objectReferenceSize ← bytesNeeded target (target.size plan.currentObjectReference)
  let offsetTableStart := target.size
    (headerSize + plan.byteCount + plan.objectReferenceCount * objectReferenceSize)
  let offsetSize ← bytesNeeded target offsetTableStart
  let bufferSize := target.size
    (offsetTableStart + plan.currentObjectReference * offsetSize + trailerSize)
  some { objectReferenceSize, offsetTableStart, offsetSize, bufferSize }

def trailer (plan : Plan) (layout : Layout) : List Byte :=
  List.replicate 6 0 ++
    [UInt8.ofNat layout.offsetSize, UInt8.ofNat layout.objectReferenceSize] ++
    bigEndian 8 plan.currentObjectReference ++ bigEndian 8 (plan.currentObjectReference - 1) ++
    bigEndian 8 layout.offsetTableStart

/-- The bytes of a fresh buffer are arbitrary. -/
def freshSerializer (plan : Plan) (layout : Layout) (fresh : Nat → Byte) : Serializer where
  plan
  objectReferenceSize := layout.objectReferenceSize
  offsetTableStart := layout.offsetTableStart
  offsetSize := layout.offsetSize
  buffer := (List.range layout.bufferSize).map fresh
  currentByte := headerSize
  currentObjectReference := 0
  currentAggregateBufferByte := layout.offsetTableStart

/-- The constructor of the serializer, which writes the whole list. -/
def binaryPropertyListSerializer (client : Value) (fresh : Nat → Byte) :
    Option (List Nat × List Byte) := do
  let (_, plan) ← binaryPropertyListPlan target client
  let layout ← layout target plan
  let (references, s) ← client.write (serializerStream target) (freshSerializer plan layout fresh)
  if s.currentObjectReference = plan.currentObjectReference ∧
      s.currentAggregateBufferByte = layout.offsetTableStart ∧
      s.currentByte = layout.offsetTableStart ∧ trailerSize ≤ layout.bufferSize then
    let s ← s.put 0 (ascii "bplist00")
    let s ← s.put (layout.bufferSize - trailerSize) (trailer plan layout)
    some (references, s.buffer)
  else none

end

end WkcBrowser.PropertyList
