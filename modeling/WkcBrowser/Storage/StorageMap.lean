import Mathlib.Data.BitVec
import Mathlib.Data.List.AList
import WkcBrowser.Wtf.StringImpl

/-! WebCore's `StorageMap`, which storage areas share until one of them writes. -/

namespace WkcBrowser.Storage

open Wtf

/-- A `String` that is not null. No buffer of characters is longer where sizes have 32 bits. -/
structure Str where
  text : Text
  short : text.length < 2 ^ 31
deriving DecidableEq

namespace Str

def size (string : Str) : Nat := string.text.length

def length (string : Str) : BitVec 32 := .ofNat 32 string.size

end Str

abbrev Items := AList fun _ : Str => Str

/-- The lengths of all keys and values. -/
def totalLength (items : Items) : Nat := (items.entries.map fun e => e.1.size + e.2.size).sum

def noQuota : BitVec 32 := .allOnes 32

structure StorageMap where
  map : Items := ∅
  quotaSize : BitVec 32
  currentLength : BitVec 32 := 0

/-- What `setItem` and `removeItem` return by their arguments. -/
structure Result where
  oldValue : Option Str := none
  quotaException : Bool := false

/-- The length of a string that may be null. -/
def lengthOf (string : Option Str) : BitVec 32 := string.elim 0 Str.length

namespace StorageMap

variable (m : StorageMap) (key value : Str)

/-- The copy begins to count anew. -/
def copy : StorageMap := { map := m.map, quotaSize := m.quotaSize }

/-- `setItem` of a map that is not shared. -/
def setOwnItem : StorageMap × Result :=
  let oldValue := m.map.lookup key
  let withValue := m.currentLength + value.length
  let withoutOld := withValue - lengthOf oldValue
  let adjustedKeyLength := if oldValue.isNone then key.length else 0
  let newLength := withoutOld + adjustedKeyLength
  let overflow : Bool :=
    withValue < m.currentLength || withoutOld > withValue || newLength < withoutOld
  let overQuota : Bool := newLength > m.quotaSize / 2
  if m.quotaSize ≠ noQuota ∧ (overflow || overQuota) then (m, { oldValue, quotaException := true })
  else ({ m with map := m.map.insert key value, currentLength := newLength }, { oldValue })

/-- `removeItem` of a map that is not shared. -/
def removeOwnItem : StorageMap × Result :=
  let oldValue := m.map.lookup key
  let keyLength := if oldValue.isSome then key.length else 0
  ({ m with
      map := m.map.erase key
      currentLength := m.currentLength - keyLength - lengthOf oldValue }, { oldValue })

def importItem : StorageMap :=
  { m with
    map := if key ∈ m.map then m.map else m.map.insert key value
    currentLength := m.currentLength + key.length + value.length }

/-- A subtraction of `setItem` gives less than nothing. -/
def SetUnderflows : Prop := m.currentLength + value.length < lengthOf (m.map.lookup key)

/-- A subtraction of `removeItem` gives less than nothing. -/
def RemoveUnderflows : Prop :=
  ∃ oldValue ∈ m.map.lookup key,
    m.currentLength < key.length ∨ m.currentLength - key.length < oldValue.length

end StorageMap

/-- All maps, and the storage areas that hold them. -/
structure Areas where
  maps : Nat → StorageMap := fun _ => { quotaSize := 0 }
  created : Nat := 0
  /-- The map of each area that is not closed. -/
  areas : List (Option Nat) := []

namespace Areas

variable (s : Areas)

def mapOf (area : Nat) : Option Nat := (s.areas[area]?).join

/-- Only areas have references to maps. -/
def refCount (map : Nat) : Nat := s.areas.count (some map)

/-- The contents that an area has. -/
def contents (area : Nat) : Option Items := (s.mapOf area).map fun map => (s.maps map).map

def write (map : Nat) (m : StorageMap) : Areas :=
  { s with maps := Function.update s.maps map m }

/-- An area holds a new map. -/
def replace (area : Nat) (m : StorageMap) : Areas where
  maps := Function.update s.maps s.created m
  created := s.created + 1
  areas := s.areas.set area (some s.created)

/-- The map is changed by a function, or a copy of it when other areas have it too. -/
def copyOnWrite (area : Nat) (change : StorageMap → StorageMap × Result) : Areas × Result :=
  match s.mapOf area with
  | none => (s, {})
  | some map =>
    if s.refCount map > 1 then
      let (m, result) := change (s.maps map).copy
      (s.replace area m, result)
    else
      let (m, result) := change (s.maps map)
      (s.write map m, result)

inductive Event where
  | create (quota : BitVec 32)
  /-- `StorageAreaImpl::copy` -/
  | copy (area : Nat)
  | setItem (area : Nat) (key value : Str)
  | removeItem (area : Nat) (key : Str)
  | importItem (area : Nat) (key value : Str)
  | clear (area : Nat)
  | close (area : Nat)

/-- The area that an event is about. -/
def Event.area : Event → Option Nat
  | .create _ => none
  | .copy area | .setItem area .. | .removeItem area _ | .importItem area .. | .clear area
  | .close area => some area

def perform : Event → Areas × Result
  | .create quota =>
    ({ maps := Function.update s.maps s.created { quotaSize := quota }
       created := s.created + 1
       areas := s.areas ++ [some s.created] }, {})
  | .copy area => ({ s with areas := s.areas ++ [s.mapOf area] }, {})
  | .setItem area key value => s.copyOnWrite area fun m => m.setOwnItem key value
  | .removeItem area key => s.copyOnWrite area fun m => m.removeOwnItem key
  | .importItem area key value =>
    match s.mapOf area with
    | none => (s, {})
    | some map => (s.write map ((s.maps map).importItem key value), {})
  | .clear area =>
    match s.mapOf area with
    | none => (s, {})
    | some map =>
      if (s.maps map).map.keys = [] then (s, {})
      else (s.replace area { quotaSize := (s.maps map).quotaSize }, {})
  | .close area => ({ s with areas := s.areas.set area none }, {})

def step (event : Event) : Areas := (s.perform event).1

end Areas

end WkcBrowser.Storage
