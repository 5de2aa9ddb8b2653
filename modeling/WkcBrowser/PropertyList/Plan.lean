import Mathlib.Logic.Function.Basic
import WkcBrowser.Wtf.StringImpl

/-! What a client writes into a binary property list. A client calls the functions of an object stream
and does so twice, for the plan and for the list itself; what it writes is the tree of its nested
calls. -/

namespace WkcBrowser.PropertyList

open Wtf

/-- `BinaryPropertyListObjectStream`. A function fails where an assertion does or where it would write
outside of its buffer. Each returns the object reference of the value, for the statements about
both passes. -/
structure ObjectStream (σ : Type) where
  writeBooleanTrue : σ → Option (Nat × σ)
  writeInteger : Nat → σ → Option (Nat × σ)
  writeString : Text → σ → Option (Nat × σ)
  writeIntegerArray : List Nat → σ → Option (Nat × σ)
  writeUniqueString : Text → σ → Option (Nat × σ)
  writeUniqueCString : List Byte → σ → Option (Nat × σ)
  writeArrayStart : σ → Nat × σ
  writeArrayEnd : Nat → σ → Option (Nat × σ)
  writeDictionaryStart : σ → Nat × σ
  writeDictionaryEnd : Nat → σ → Option (Nat × σ)

/-- The calls of a client. The items of a dictionary are all its keys, then all its values. -/
inductive Value where
  | booleanTrue
  | integer (n : Nat)
  | string (s : Text)
  | integerArray (integers : List Nat)
  | uniqueString (s : Text)
  | uniqueCString (s : List Byte)
  | array (items : List Value)
  | dictionary (items : List Value)

section
variable {σ : Type} (stream : ObjectStream σ)

/-- The references that a single call leads to. -/
def single (written : Option (Nat × σ)) : Option (List Nat × σ) := do
  let (reference, s) ← written
  some ([reference], s)

mutual

/-- The references are those of the values in the order in which they are finished. -/
def Value.write : Value → σ → Option (List Nat × σ)
  | .booleanTrue, s => single (stream.writeBooleanTrue s)
  | .integer n, s => single (stream.writeInteger n s)
  | .string string, s => single (stream.writeString string s)
  | .integerArray integers, s => single (stream.writeIntegerArray integers s)
  | .uniqueString string, s => single (stream.writeUniqueString string s)
  | .uniqueCString string, s => single (stream.writeUniqueCString string s)
  | .array items, s => do
    let (saved, s) := stream.writeArrayStart s
    let (references, s) ← writeAll items s
    let (reference, s) ← stream.writeArrayEnd saved s
    some (references ++ [reference], s)
  | .dictionary items, s => do
    let (saved, s) := stream.writeDictionaryStart s
    let (references, s) ← writeAll items s
    let (reference, s) ← stream.writeDictionaryEnd saved s
    some (references ++ [reference], s)

def writeAll : List Value → σ → Option (List Nat × σ)
  | [], s => some ([], s)
  | item :: items, s => do
    let (first, s) ← item.write s
    let (rest, s) ← writeAll items s
    some (first ++ rest, s)

end

end

mutual

/-- Aggregates have elements, a dictionary as many keys as values. Integers are those of an `int`
that are not negative and the length of a string is an `unsigned`. -/
def Value.WellFormed : Value → Prop
  | .booleanTrue => True
  | .integer n => n < 2 ^ 31
  | .string s | .uniqueString s => s.length < 2 ^ 32
  | .integerArray integers => integers ≠ [] ∧ ∀ n ∈ integers, n < 2 ^ 31
  | .uniqueCString s => 0 ∉ s
  | .array items => items ≠ [] ∧ AllWellFormed items
  | .dictionary items => items ≠ [] ∧ items.length % 2 = 0 ∧ AllWellFormed items

def AllWellFormed : List Value → Prop
  | [] => True
  | item :: items => item.WellFormed ∧ AllWellFormed items

end

/-- An array or a dictionary that the client put together itself. -/
def Value.isAggregate : Value → Bool
  | .array _ | .dictionary _ => true
  | _ => false

end WkcBrowser.PropertyList

/-! The first pass over a property list. It gives every object its number and counts the bytes the
list will need. -/

namespace WkcBrowser.PropertyList

open Wtf

/-- How wide `size_t` is. -/
inductive Target where
  | lp64
  | ilp32
deriving DecidableEq

def Target.sizeBits : Target → Nat
  | .lp64 => 64
  | .ilp32 => 32

/-- A number as `size_t` holds it. -/
def Target.size (target : Target) (n : Nat) : Nat :=
  n % 2 ^ target.sizeBits

def maxLengthInMarkerByte : Nat := 0xE

def charactersAreAllASCII (characters : Text) : Bool :=
  characters.all (· < 128)

/-- The length of a `const char*` is taken as an `unsigned`. -/
def unsigned (n : Nat) : Nat :=
  n % 2 ^ 32

/-- A shared object has no reference before it is planned. The byte counts are of type `size_t`; the
other two counts grow more slowly than these and are kept exactly. -/
structure Plan where
  booleanTrueObjectReference : Option Nat := none
  integerZeroObjectReference : Option Nat := none
  integers : Nat → Option Nat := fun _ => none
  strings : Text → Option Nat := fun _ => none
  integerArrays : List Nat → Option Nat := fun _ => none
  currentObjectReference : Nat := 0
  currentAggregateSize : Nat := 0
  byteCount : Nat := 0
  objectReferenceCount : Nat := 0

section
variable (target : Target)

def integerByteCount (integer : Nat) : Nat :=
  if integer ≤ 0xFF then 2
  else if integer ≤ 0xFFFF then 3
  else
    match target with
    | .lp64 => if integer ≤ 0xFFFFFFFF then 5 else 9
    | .ilp32 => 5

def markerPlusLengthByteCount (length : Nat) : Nat :=
  if length ≤ maxLengthInMarkerByte then 1 else 1 + integerByteCount target length

namespace Plan
variable (plan : Plan)

def addBytes (count : Nat) : Plan :=
  { plan with byteCount := target.size (plan.byteCount + count) }

def addObject : Plan :=
  { plan with currentObjectReference := plan.currentObjectReference + 1 }

def addElement : Plan :=
  { plan with currentAggregateSize := plan.currentAggregateSize + 1 }

def writeStringObject (string : Text) : Plan :=
  let length := string.length
  let plan := plan.addBytes target (markerPlusLengthByteCount target length + length)
  if !charactersAreAllASCII string then plan.addBytes target length else plan

def writeCStringObject (string : List Byte) : Plan :=
  let length := unsigned string.length
  plan.addBytes target (markerPlusLengthByteCount target length + length)

def writeArrayObject (size : Nat) : Option Plan :=
  if size = 0 then none
  else
    let plan := plan.addBytes target (markerPlusLengthByteCount target size)
    some { plan with objectReferenceCount := target.size (plan.objectReferenceCount + size) }

def writeDictionaryObject (size : Nat) : Option Plan :=
  if size = 0 then none
  else if size % 2 ≠ 0 then none
  else
    let plan := plan.addBytes target (markerPlusLengthByteCount target (size / 2))
    some { plan with objectReferenceCount := target.size (plan.objectReferenceCount + size) }

def writeBooleanTrue : Nat × Plan :=
  let plan := plan.addElement
  match plan.booleanTrueObjectReference with
  | some reference => (reference, plan)
  | none =>
    let reference := plan.currentObjectReference
    let plan := { plan with booleanTrueObjectReference := some reference }
    (reference, plan.addObject.addBytes target 1)

def writeInteger (integer : Nat) : Nat × Plan :=
  let plan := plan.addElement
  let reference := plan.currentObjectReference
  if integer = 0 then
    match plan.integerZeroObjectReference with
    | some reference => (reference, plan)
    | none =>
      let plan := { plan with integerZeroObjectReference := some reference }
      (reference, plan.addObject.addBytes target (integerByteCount target integer))
  else
    match plan.integers integer with
    | some reference => (reference, plan)
    | none =>
      let plan := { plan with integers := Function.update plan.integers integer (some reference) }
      (reference, plan.addObject.addBytes target (integerByteCount target integer))

def writeString (string : Text) : Nat × Plan :=
  let plan := plan.addElement
  match plan.strings string with
  | some reference => (reference, plan)
  | none =>
    let reference := plan.currentObjectReference
    let plan := { plan with strings := Function.update plan.strings string (some reference) }
    (reference, plan.addObject.writeStringObject target string)

/-- The array is in the table before its integers are planned, and gets its number after them. -/
def writeIntegerArray (integers : List Nat) : Option (Nat × Plan) :=
  let plan := plan.addElement
  let savedAggregateSize := plan.currentAggregateSize
  if integers.length = 0 then none
  else
    match plan.integerArrays integers with
    | some reference => some (reference, plan)
    | none => do
      let plan :=
        { plan with integerArrays := Function.update plan.integerArrays integers (some 0) }
      let plan := integers.foldl (fun plan integer => (plan.writeInteger target integer).2) plan
      let reference := plan.currentObjectReference
      let plan := { plan with
        integerArrays := Function.update plan.integerArrays integers (some reference) }
      let plan ← plan.addObject.writeArrayObject target integers.length
      some (reference, { plan with currentAggregateSize := savedAggregateSize })

def writeUniqueString (string : Text) : Nat × Plan :=
  (plan.currentObjectReference, plan.addElement.addObject.writeStringObject target string)

def writeUniqueCString (string : List Byte) : Nat × Plan :=
  (plan.currentObjectReference, plan.addElement.addObject.writeCStringObject target string)

/-- `writeArrayStart` and `writeDictionaryStart`. -/
def writeAggregateStart : Nat × Plan :=
  (plan.currentAggregateSize, { plan with currentAggregateSize := 0 })

def writeArrayEnd (savedAggregateSize : Nat) : Option (Nat × Plan) := do
  let reference := plan.currentObjectReference
  let plan ← plan.addObject.writeArrayObject target plan.currentAggregateSize
  some (reference, { plan with currentAggregateSize := savedAggregateSize + 1 })

def writeDictionaryEnd (savedAggregateSize : Nat) : Option (Nat × Plan) := do
  let reference := plan.currentObjectReference
  let plan ← plan.addObject.writeDictionaryObject target plan.currentAggregateSize
  some (reference, { plan with currentAggregateSize := savedAggregateSize + 1 })

end Plan

def planStream : ObjectStream Plan where
  writeBooleanTrue plan := some (plan.writeBooleanTrue target)
  writeInteger integer plan := some (plan.writeInteger target integer)
  writeString string plan := some (plan.writeString target string)
  writeIntegerArray integers plan := plan.writeIntegerArray target integers
  writeUniqueString string plan := some (plan.writeUniqueString target string)
  writeUniqueCString string plan := some (plan.writeUniqueCString target string)
  writeArrayStart := Plan.writeAggregateStart
  writeArrayEnd saved plan := plan.writeArrayEnd target saved
  writeDictionaryStart := Plan.writeAggregateStart
  writeDictionaryEnd saved plan := plan.writeDictionaryEnd target saved

/-- The constructor of the plan, with the references it has assigned. -/
def binaryPropertyListPlan (client : Value) : Option (List Nat × Plan) := do
  let (references, plan) ← client.write (planStream target) {}
  if plan.currentAggregateSize = 1 then some (references, plan) else none

end

end WkcBrowser.PropertyList
