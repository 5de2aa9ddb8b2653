import WkcBrowser.Lib.Probing
import Mathlib.Data.Nat.Bitwise

/-! The property tables of `Structure`: a table of indices, open addressed, that points into a dense list of
entries. -/

namespace WkcBrowser.Runtime

/-- `PropertyMapEntry`; a null key marks an entry that is not used. -/
structure PropertyMapEntry (κ C : Type) where
  key : Option κ
  offset : Nat
  attributes : Nat
  specificValue : Option C
  index : Nat
deriving DecidableEq

/-- `PropertyMapHashTable`. The last of `deletedOffsets` stands first. -/
structure PropertyMapHashTable (κ C : Type) where
  sizeMask : Nat
  size : Nat
  keyCount : Nat
  deletedSentinelCount : Nat
  anonymousSlotCount : Nat
  lastIndexUsed : Nat
  deletedOffsets : List Nat
  entryIndices : List Nat
  entries : List (PropertyMapEntry κ C)
deriving DecidableEq

def emptyEntryIndex : Nat := 0
def deletedSentinelIndex : Nat := 1
def newTableSize : Nat := 16
def DontEnum : Nat := 4
def tinyMapThreshold : Nat := 20

def doubleHash (key : UInt32) : UInt32 :=
  let key := ~~~key + (key >>> 23)
  let key := key ^^^ (key <<< 12)
  let key := key ^^^ (key >>> 7)
  let key := key ^^^ (key <<< 2)
  key ^^^ (key >>> 20)

namespace PropertyMapHashTable

variable {κ C : Type} [DecidableEq κ]

def unusedEntry : PropertyMapEntry κ C :=
  { key := none, offset := 0, attributes := 0, specificValue := none, index := 0 }

/-- Zeroed memory. -/
def createPropertyMapHashTable (newTableSize : Nat) : PropertyMapHashTable κ C where
  sizeMask := newTableSize - 1
  size := newTableSize
  keyCount := 0
  deletedSentinelCount := 0
  anonymousSlotCount := 0
  lastIndexUsed := 0
  deletedOffsets := []
  entryIndices := List.replicate newTableSize emptyEntryIndex
  entries := List.replicate (1 + newTableSize / 2) unusedEntry

def addAnonymousSlots (t : PropertyMapHashTable κ C) (count : Nat) : PropertyMapHashTable κ C :=
  { t with anonymousSlotCount := t.anonymousSlotCount + count }

def propertyStorageSize (t : PropertyMapHashTable κ C) : Nat :=
  t.keyCount + t.anonymousSlotCount + t.deletedOffsets.length

section
variable (computedHash : κ → UInt32)

/-- What the index of a probe grows by. -/
def stride (rep : κ) : Nat := (1 ||| doubleHash (computedHash rep)).toNat

/-- The index that a probe finds. The mask takes the low bits only, so that the probes need not wrap. -/
def entryIndexAt (t : PropertyMapHashTable κ C) (i : Nat) : Nat := t.entryIndices.getD (i &&& t.sizeMask) 0

def entryAt (t : PropertyMapHashTable κ C) (c : Nat) : PropertyMapEntry κ C := t.entries.getD c unusedEntry

/-- The loop of `get`, `remove` and `despecifyFunction`, of at most so many turns: the probe and the index
that lead to a key, or none when an empty place comes first. -/
def findEntry (t : PropertyMapHashTable κ C) (rep : κ) : Nat → Nat → Option (Option (Nat × Nat))
  | 0, _ => none
  | turns + 1, i =>
    let entryIndex := t.entryIndexAt i
    if entryIndex = emptyEntryIndex then some none
    else if (t.entryAt (entryIndex - 1)).key = some rep then some (some (i, entryIndex))
    else findEntry t rep turns (i + stride computedHash rep)

/-- The loop of `put` and `insertIntoPropertyMapHashTable`: the probe of the first empty place, and that of
the first sentinel before it. -/
def findPlace (t : PropertyMapHashTable κ C) (rep : κ) : Nat → Nat → Option Nat → Option (Nat × Option Nat)
  | 0, _, _ => none
  | turns + 1, i, deletedElementIndex =>
    let entryIndex := t.entryIndexAt i
    if entryIndex = emptyEntryIndex then some (i, deletedElementIndex)
    else
      let deletedElementIndex :=
        if entryIndex = deletedSentinelIndex then deletedElementIndex.or (some i) else deletedElementIndex
      findPlace t rep turns (i + stride computedHash rep) deletedElementIndex

/-- Of a table that is half full an empty place is found within one round. -/
def lookup (t : PropertyMapHashTable κ C) (rep : κ) : Option (Option (Nat × Nat)) :=
  findEntry computedHash t rep t.size (computedHash rep).toNat

def vacancy (t : PropertyMapHashTable κ C) (rep : κ) : Option (Nat × Option Nat) :=
  findPlace computedHash t rep t.size (computedHash rep).toNat none

/-- The offset, the attributes and the specific value; `none` inside for `notFound`. -/
def get (t : PropertyMapHashTable κ C) (rep : κ) : Option (Option (Nat × Nat × Option C)) := do
  match ← lookup computedHash t rep with
  | none => pure none
  | some (_, entryIndex) =>
    let entry := t.entryAt (entryIndex - 1)
    pure (some (entry.offset, entry.attributes, entry.specificValue))

def despecifyFunction (t : PropertyMapHashTable κ C) (rep : κ) : Option (Bool × PropertyMapHashTable κ C) := do
  match ← lookup computedHash t rep with
  | none => pure (false, t)
  | some (_, entryIndex) =>
    let entry := { t.entryAt (entryIndex - 1) with specificValue := none }
    pure (true, { t with entries := t.entries.set (entryIndex - 1) entry })

def despecifyAllFunctions (t : PropertyMapHashTable κ C) : PropertyMapHashTable κ C :=
  { t with entries := t.entries.map fun entry => { entry with specificValue := none } }

/-- Backwards to an entry that is not used; the 0th is not. -/
def searchBack (t : PropertyMapHashTable κ C) : Nat → Nat
  | 0 => 0
  | c + 1 => if (t.entryAt (c + 1)).key.isSome then searchBack t c else c + 1

def insertIntoPropertyMapHashTable (t : PropertyMapHashTable κ C) (rep : κ) (entry : PropertyMapEntry κ C) :
    Option (PropertyMapHashTable κ C) := do
  let (i, _) ← vacancy computedHash t rep
  let entryIndex := t.keyCount + 2
  pure { t with
    entryIndices := t.entryIndices.set (i &&& t.sizeMask) entryIndex
    entries := t.entries.set (entryIndex - 1) entry
    keyCount := t.keyCount + 1 }

/-- The entries of a table that are used, in the order of the list. -/
def usedEntries (t : PropertyMapHashTable κ C) : List (κ × PropertyMapEntry κ C) :=
  ((t.entries.drop 1).take (t.keyCount + t.deletedSentinelCount)).filterMap fun entry =>
    entry.key.map fun rep => (rep, entry)

def rehashPropertyMapHashTable (oldTable : PropertyMapHashTable κ C) (newTableSize : Nat) :
    Option (PropertyMapHashTable κ C) := do
  let fresh := { createPropertyMapHashTable newTableSize with
    anonymousSlotCount := oldTable.anonymousSlotCount }
  let filled ← oldTable.usedEntries.foldlM
    (fun t (rep, entry) => insertIntoPropertyMapHashTable computedHash t rep entry) fresh
  let lastIndexUsed := oldTable.usedEntries.foldl (fun last (_, entry) => max entry.index last) 0
  pure { filled with lastIndexUsed, deletedOffsets := oldTable.deletedOffsets }

def expandPropertyMapHashTable (t : PropertyMapHashTable κ C) : Option (PropertyMapHashTable κ C) :=
  rehashPropertyMapHashTable computedHash t (t.size * 2)

/-- The offset that `put` returns, and the table behind it. -/
def put (t : PropertyMapHashTable κ C) (rep : κ) (attributes : Nat) (specificValue : Option C) :
    Option (Nat × PropertyMapHashTable κ C) := do
  let (emptyIndex, deletedElementIndex) ← vacancy computedHash t rep
  let entryIndex := t.keyCount + t.deletedSentinelCount + 2
  let (i, deletedSentinelCount, entryIndex) :=
    match deletedElementIndex with
    | some deletedElementIndex =>
      -- the entry of a key that was removed is free
      (deletedElementIndex, t.deletedSentinelCount - 1, t.searchBack (entryIndex - 2) + 1)
    | none => (emptyIndex, t.deletedSentinelCount, entryIndex)
  let lastIndexUsed := (t.lastIndexUsed + 1) % 2 ^ 32
  let (newOffset, deletedOffsets) :=
    match t.deletedOffsets with
    | last :: rest => (last, rest)
    | [] => (t.keyCount + t.anonymousSlotCount, [])
  let entry := { key := some rep, offset := newOffset, attributes, specificValue, index := lastIndexUsed }
  let t' := { t with
    entryIndices := t.entryIndices.set (i &&& t.sizeMask) entryIndex
    entries := t.entries.set (entryIndex - 1) entry
    keyCount := t.keyCount + 1
    deletedSentinelCount
    deletedOffsets
    lastIndexUsed }
  if (t'.keyCount + t'.deletedSentinelCount) * 2 ≥ t'.size then
    let expanded ← expandPropertyMapHashTable computedHash t'
    pure (newOffset, expanded)
  else pure (newOffset, t')

/-- The offset of the property that is removed, if it is there. -/
def remove (t : PropertyMapHashTable κ C) (rep : κ) : Option (Option Nat × PropertyMapHashTable κ C) := do
  match ← lookup computedHash t rep with
  | none => pure (none, t)
  | some (i, entryIndex) =>
    let entry := t.entryAt (entryIndex - 1)
    let unused := { entry with key := none, attributes := 0, specificValue := none, offset := 0 }
    let t' := { t with
      entryIndices := t.entryIndices.set (i &&& t.sizeMask) deletedSentinelIndex
      entries := t.entries.set (entryIndex - 1) unused
      deletedOffsets := entry.offset :: t.deletedOffsets
      keyCount := t.keyCount - 1
      deletedSentinelCount := t.deletedSentinelCount + 1 }
    if t'.deletedSentinelCount * 4 ≥ t'.size then
      let rehashed ← rehashPropertyMapHashTable computedHash t' t'.size
      pure (some entry.offset, rehashed)
    else pure (some entry.offset, t')

end

/-- All memory is copied, and the free list behind its pointer. -/
def copyPropertyTable (t : PropertyMapHashTable κ C) : PropertyMapHashTable κ C :=
  { t with deletedOffsets := t.deletedOffsets, anonymousSlotCount := t.anonymousSlotCount }

/-- `qsort` with `comparePropertyMapEntryIndices`. -/
def sortedPropertyEntries (t : PropertyMapHashTable κ C) : List (κ × PropertyMapEntry κ C) :=
  t.usedEntries.mergeSort fun a b => a.2.index ≤ b.2.index

/-- The place of a key in a list. -/
def placeOf (entries : List (κ × PropertyMapEntry κ C)) (rep : κ) : Nat :=
  entries.findIdx fun entry => entry.1 = rep

/-- Of an uncacheable dictionary the table and the storage of the object. Entries, to which the code
points, are told apart by their keys. -/
def flattenDictionaryStructure {V : Type} (isUncacheableDictionary : Bool) (t : PropertyMapHashTable κ C)
    (storage : Nat → V) : PropertyMapHashTable κ C × (Nat → V) :=
  if isUncacheableDictionary then
    let sorted := t.sortedPropertyEntries
    let values := sorted.map fun entry => storage entry.2.offset
    let flattened (entry : PropertyMapEntry κ C) : PropertyMapEntry κ C :=
      match entry.key with
      | none => entry
      | some rep =>
        { entry with offset := t.anonymousSlotCount + placeOf sorted rep, index := placeOf sorted rep }
    ({ t with entries := t.entries.map flattened, deletedOffsets := [] },
      fun offset =>
        if offset < t.anonymousSlotCount then storage offset
        else values.getD (offset - t.anonymousSlotCount) (storage offset))
  else (t, storage)

/-- What is greater moves up from the end. -/
def insertByIndex (sorted : List (κ × PropertyMapEntry κ C)) (value : κ × PropertyMapEntry κ C) :
    List (κ × PropertyMapEntry κ C) :=
  let greater := sorted.reverse.takeWhile fun entry => entry.2.index > value.2.index
  let rest := sorted.reverse.dropWhile fun entry => entry.2.index > value.2.index
  rest.reverse ++ value :: greater.reverse

/-- The names in the order in which they are handed on. -/
def getEnumerablePropertyNames (t : PropertyMapHashTable κ C) : List κ :=
  let enumerable := t.usedEntries.filter fun entry => entry.2.attributes &&& DontEnum = 0
  if t.keyCount < tinyMapThreshold then (enumerable.foldl insertByIndex []).map Prod.fst
  else (enumerable.mergeSort fun a b => a.2.index ≤ b.2.index).map Prod.fst

end PropertyMapHashTable

end WkcBrowser.Runtime
