import WkcBrowser.Lib.Along
import WkcBrowser.Lib.Probing
import Mathlib.Data.Nat.Bitwise

/-! `WTF::HashTable`: open addressing with double hashing and marks for deleted values. Keys that
`HashFunctions::equal` takes for equal are one key, and the memory suffices for every table. -/

namespace WkcBrowser.Wtf

open Lib

/-- A bucket holds the empty value, the deleted value or another one. -/
inductive Bucket (V : Type) where
  | empty
  | deleted
  | value (v : V)
deriving DecidableEq

def Bucket.value? {V : Type} : Bucket V → Option V
  | .value v => some v
  | _ => none

def isDeletedBucket {V : Type} : Bucket V → Bool
  | .deleted => true
  | _ => false

/-- `Extractor::extract` and `HashFunctions::hash` -/
structure HashFunctions (K V : Type) where
  extract : V → K
  hash : K → UInt32

/-- A table that is not null has `m_tableSize` buckets. -/
structure HashTable (V : Type) where
  m_table : Option (List (Bucket V)) := none
  m_tableSize : Nat := 0
  m_tableSizeMask : Nat := 0
  m_keyCount : Nat := 0
  m_deletedCount : Nat := 0
deriving DecidableEq

def doubleHash (key : UInt32) : UInt32 :=
  let key := ~~~key + (key >>> 23)
  let key := key ^^^ (key <<< 12)
  let key := key ^^^ (key >>> 7)
  let key := key ^^^ (key <<< 2)
  key ^^^ (key >>> 20)

namespace HashTable

def m_minTableSize : Nat := 64
def m_maxLoad : Nat := 2
def m_minLoad : Nat := 6

/-- What a loop over the buckets of a key ends with. -/
inductive Probe where
  | found (entry : Nat)
  | vacant (entry : Nat) (deletedEntry : Option Nat)
deriving DecidableEq

section
variable {K V : Type}

def shouldExpand (t : HashTable V) : Bool := (t.m_keyCount + t.m_deletedCount) * m_maxLoad ≥ t.m_tableSize
def mustRehashInPlace (t : HashTable V) : Bool := t.m_keyCount * m_minLoad < t.m_tableSize * 2
def shouldShrink (t : HashTable V) : Bool :=
  t.m_keyCount * m_minLoad < t.m_tableSize && t.m_tableSize > m_minTableSize

/-- What the buckets hold that are neither empty nor deleted, in the order of an iteration. -/
def values (t : HashTable V) : List V := (t.m_table.getD []).filterMap Bucket.value?

/-- What an iterator points to. -/
def valueAt (t : HashTable V) (entry : Option Nat) : Option V := do
  let bucket ← (t.m_table.getD [])[← entry]?
  bucket.value?

def write (t : HashTable V) (entry : Nat) (bucket : Bucket V) : HashTable V :=
  { t with m_table := t.m_table.map fun table => table.set entry bucket }

variable [DecidableEq K] (functions : HashFunctions K V)

def stride (key : K) : Nat := (1 ||| doubleHash (functions.hash key)).toNat

/-- The loop that `lookup`, `lookupForWriting`, `fullLookupForWriting` and `add` share, of at most so many
turns. The key is neither empty nor deleted, so that the order of the tests does not count. -/
def probeFrom (table : List (Bucket V)) (sizeMask : Nat) (key : K) : Nat → Nat → Option Nat → Option Probe
  | 0, _, _ => none
  | turns + 1, i, deletedEntry =>
    let next := (i + stride functions key) &&& sizeMask
    match table[i]? with
    | none => none
    | some .empty => some (.vacant i deletedEntry)
    | some .deleted => probeFrom table sizeMask key turns next (some i)
    | some (.value v) =>
      if functions.extract v = key then some (.found i)
      else probeFrom table sizeMask key turns next deletedEntry

/-- A loop that goes round once without an end has none. -/
def probe (t : HashTable V) (key : K) : Option Probe := do
  probeFrom functions (← t.m_table) t.m_tableSizeMask key t.m_tableSize
    ((functions.hash key).toNat &&& t.m_tableSizeMask) none

/-- `none` inside for the null pointer -/
def lookup (t : HashTable V) (key : K) : Option (Option Nat) :=
  if t.m_table.isNone then some none
  else (t.probe functions key).map fun
    | .found entry => some entry
    | .vacant _ _ => none

def find (t : HashTable V) (key : K) : Option (Option Nat) :=
  if t.m_table.isNone then some none else t.lookup functions key

def lookupForWriting (t : HashTable V) (key : K) : Option (Nat × Bool) :=
  (t.probe functions key).map fun
    | .found entry => (entry, true)
    | .vacant entry deletedEntry => (deletedEntry.getD entry, false)

def fullLookupForWriting (t : HashTable V) (key : K) : Option ((Nat × Bool) × UInt32) :=
  (t.lookupForWriting functions key).map fun found => (found, functions.hash key)

def reinsert (t : HashTable V) (v : V) : Option (HashTable V) := do
  let (entry, _) ← t.lookupForWriting functions (functions.extract v)
  pure (t.write entry (.value v))

def rehash (t : HashTable V) (newTableSize : Nat) : Option (HashTable V) := do
  let fresh := { t with
    m_table := some (List.replicate newTableSize .empty)
    m_tableSize := newTableSize
    m_tableSizeMask := newTableSize - 1 }
  let filled ← t.values.foldlM (reinsert functions) fresh
  pure { filled with m_deletedCount := 0 }

def expand (t : HashTable V) : Option (HashTable V) :=
  t.rehash functions
    (if t.m_tableSize = 0 then m_minTableSize
    else if t.mustRehashInPlace then t.m_tableSize
    else t.m_tableSize * 2)

def allocated (t : HashTable V) : Option (HashTable V) :=
  if t.m_table.isNone then t.expand functions else some t

/-- The end of `add` and `addPassingHashCode`, from `translate` on. -/
def enter (t : HashTable V) (entry : Nat) (v : V) : Option ((Option Nat × Bool) × HashTable V) :=
  let entered := { t.write entry (.value v) with m_keyCount := t.m_keyCount + 1 }
  if entered.shouldExpand then do
    let expanded ← entered.expand functions
    let entry ← expanded.find functions (functions.extract v)
    pure ((entry, true), expanded)
  else pure ((some entry, true), entered)

/-- The iterator, whether the value is new, and the table. -/
def add (t : HashTable V) (v : V) : Option ((Option Nat × Bool) × HashTable V) := do
  let t ← t.allocated functions
  match ← t.probe functions (functions.extract v) with
  | .found entry => pure ((some entry, false), t)
  | .vacant entry none => t.enter functions entry v
  | .vacant _ (some deletedEntry) =>
    enter functions { t with m_deletedCount := t.m_deletedCount - 1 } deletedEntry v

def addPassingHashCode (t : HashTable V) (v : V) : Option ((Option Nat × Bool) × HashTable V) := do
  let t ← t.allocated functions
  let ((entry, found), _) ← t.fullLookupForWriting functions (functions.extract v)
  if found then pure ((some entry, false), t)
  else if ((t.m_table.getD [])[entry]?).any isDeletedBucket then
    enter functions { t with m_deletedCount := t.m_deletedCount - 1 } entry v
  else t.enter functions entry v

def removeAt (t : HashTable V) (pos : Nat) : Option (HashTable V) :=
  let removed := { t.write pos .deleted with
    m_deletedCount := t.m_deletedCount + 1
    m_keyCount := t.m_keyCount - 1 }
  if removed.shouldShrink then removed.rehash functions (removed.m_tableSize / 2) else some removed

def remove (t : HashTable V) (key : K) : Option (HashTable V) := do
  match ← t.find functions key with
  | none => pure t
  | some pos => t.removeAt functions pos

/-- `m_deletedCount` stays as it is. -/
def clear (t : HashTable V) : HashTable V :=
  { t with m_table := none, m_tableSize := 0, m_tableSizeMask := 0, m_keyCount := 0 }

/-- The copy constructor -/
def copy (other : HashTable V) : Option (HashTable V) :=
  other.values.foldlM (fun t v => (t.add functions v).map Prod.snd) {}

def swap (t other : HashTable V) : HashTable V × HashTable V := (other, t)

/-- `operator=` -/
def assign (t other : HashTable V) : Option (HashTable V) :=
  (other.copy functions).map fun tmp => (t.swap tmp).1

end

/-- What is done with some tables. -/
inductive Operation (ι K V : Type) where
  | add (i : ι) (v : V)
  | addPassingHashCode (i : ι) (v : V)
  | remove (i : ι) (key : K)
  | clear (i : ι)
  | swap (i other : ι)
  | assign (i other : ι)
  | lookup (i : ι) (key : K)

section
variable {ι K V : Type} [DecidableEq ι] [DecidableEq K] (functions : HashFunctions K V)

/-- The value that the answer points to, and whether it is new; then the tables. -/
def perform (tables : ι → HashTable V) :
    Operation ι K V → Option ((Option V × Bool) × (ι → HashTable V))
  | .add i v => do
    let ((entry, new), t) ← (tables i).add functions v
    pure ((t.valueAt entry, new), Function.update tables i t)
  | .addPassingHashCode i v => do
    let ((entry, new), t) ← (tables i).addPassingHashCode functions v
    pure ((t.valueAt entry, new), Function.update tables i t)
  | .remove i key => do
    let t ← (tables i).remove functions key
    pure ((none, false), Function.update tables i t)
  | .clear i => some ((none, false), Function.update tables i (tables i).clear)
  | .swap i other =>
    let swapped := (tables i).swap (tables other)
    some ((none, false), Function.update (Function.update tables i swapped.1) other swapped.2)
  | .assign i other => do
    let t ← (tables i).assign functions (tables other)
    pure ((none, false), Function.update tables i t)
  | .lookup i key => do
    let entry ← (tables i).lookup functions key
    pure (((tables i).valueAt entry, false), tables)

/-- The same done with finite maps. -/
def mapped (maps : ι → K → Option V) : Operation ι K V → (Option V × Bool) × (ι → K → Option V)
  | .add i v | .addPassingHashCode i v =>
    match maps i (functions.extract v) with
    | some old => ((some old, false), maps)
    | none =>
      ((some v, true),
        Function.update maps i (Function.update (maps i) (functions.extract v) (some v)))
  | .remove i key => ((none, false), Function.update maps i (Function.update (maps i) key none))
  | .clear i => ((none, false), Function.update maps i fun _ => none)
  | .swap i other =>
    ((none, false), Function.update (Function.update maps i (maps other)) other (maps i))
  | .assign i other => ((none, false), Function.update maps i (maps other))
  | .lookup i key => ((maps i key, false), maps)

/-- A lookup ends and finds what the map has, no key is stored twice, the counts are right and a bucket is
empty. -/
structure Refines (t : HashTable V) (map : K → Option V) : Prop where
  finds : ∀ key, ∃ entry, t.lookup functions key = some entry ∧ t.valueAt entry = map key
  once : (t.values.map functions.extract).Nodup
  keyCount : t.m_keyCount = t.values.length
  deletedCount : t.m_deletedCount = (t.m_table.getD []).countP isDeletedBucket
  vacancy : ∀ table ∈ t.m_table, .empty ∈ table

def follow (now : (ι → HashTable V) × (ι → K → Option V)) (operation : Operation ι K V) :
    (ι → HashTable V) × (ι → K → Option V) :=
  (((perform functions now.1 operation).map Prod.snd).getD now.1, (mapped functions now.2 operation).2)

/-- The operation ends with the answer of the maps, and the tables refine them. -/
def Agrees (now : (ι → HashTable V) × (ι → K → Option V)) (operation : Operation ι K V) : Prop :=
  ∃ tables, perform functions now.1 operation = some ((mapped functions now.2 operation).1, tables) ∧
    ∀ i, Refines functions (tables i) ((mapped functions now.2 operation).2 i)

/-- No table is cleared that has deleted buckets. -/
def Unmarked (now : (ι → HashTable V) × (ι → K → Option V)) : Operation ι K V → Prop
  | .clear i => (now.1 i).m_deletedCount = 0
  | _ => True

end

/-! A list of buckets. -/

section
variable {K V : Type} {functions : HashFunctions K V} {table : List (Bucket V)} {key : K} {v : V} {m p : Nat}

def valuesOf (table : List (Bucket V)) : List V := table.filterMap Bucket.value?

/-- The bucket that a probe comes to. -/
def place (functions : HashFunctions K V) (size : Nat) (key : K) (j : Nat) : Nat :=
  ((functions.hash key).toNat + j * stride functions key) % size

/-- No key is stored twice, and no empty bucket comes before a value on the way to it. -/
structure Laid (functions : HashFunctions K V) (table : List (Bucket V)) : Prop where
  power : ∃ m, table.length = 2 ^ m
  once : ((valuesOf table).map functions.extract).Nodup
  reached : ∀ p v, table[p]? = some (.value v) → ∃ j, p = place functions table.length (functions.extract v) j ∧
    ∀ j' < j, table[place functions table.length (functions.extract v) j']? ≠ some .empty

theorem stride_odd (functions : HashFunctions K V) (key : K) : stride functions key % 2 = 1 := by
  unfold stride
  rw [UInt32.toNat_or, UInt32.toNat_one, Nat.or_mod_two_eq_one]
  exact Or.inl rfl

theorem place_zero : (functions.hash key).toNat &&& 2 ^ m - 1 = place functions (2 ^ m) key 0 := by
  rw [Nat.and_two_pow_sub_one_eq_mod, place, Nat.zero_mul, Nat.add_zero]

theorem place_succ (j : Nat) : (place functions (2 ^ m) key j + stride functions key) &&& 2 ^ m - 1 =
    place functions (2 ^ m) key (j + 1) := by
  rw [Nat.and_two_pow_sub_one_eq_mod, place, place, Nat.mod_add_mod, Nat.succ_mul, Nat.add_assoc]

theorem Laid.place_lt (laid : Laid functions table) (key : K) (j : Nat) :
    place functions table.length key j < table.length := by
  obtain ⟨m, size⟩ := laid.power
  rw [size]
  exact Nat.mod_lt _ (Nat.two_pow_pos m)

theorem mem_valuesOf : v ∈ valuesOf table ↔ ∃ p : Nat, table[p]? = some (.value v) := by
  unfold valuesOf
  rw [List.mem_filterMap]
  constructor
  · rintro ⟨bucket, member, holds⟩
    obtain ⟨p, here⟩ := List.getElem?_of_mem member
    cases bucket with
    | empty => cases holds
    | deleted => cases holds
    | value v' =>
      cases holds
      exact ⟨p, here⟩
  · rintro ⟨p, here⟩
    exact ⟨_, List.mem_of_getElem? here, rfl⟩

/-- Every bucket is empty, deleted or holds a value. -/
theorem length_eq (table : List (Bucket V)) : table.length =
    table.countP (fun bucket => bucket.value?.isNone && !isDeletedBucket bucket) +
      table.countP isDeletedBucket + (valuesOf table).length := by
  induction table with
  | nil => rfl
  | cons bucket table ih =>
    rw [List.length_cons, ih]
    cases bucket with
    | empty =>
      rw [List.countP_cons_of_pos rfl, List.countP_cons_of_neg Bool.false_ne_true]
      have same : valuesOf (Bucket.empty :: table) = valuesOf table := rfl
      rw [same]
      omega
    | deleted =>
      rw [List.countP_cons_of_neg Bool.false_ne_true, List.countP_cons_of_pos rfl]
      have same : valuesOf (Bucket.deleted :: table) = valuesOf table := rfl
      rw [same]
      omega
    | value v =>
      rw [List.countP_cons_of_neg Bool.false_ne_true, List.countP_cons_of_neg Bool.false_ne_true]
      rfl

theorem exists_empty (room : (valuesOf table).length + table.countP isDeletedBucket < table.length) :
    .empty ∈ table := by
  have whole := length_eq table
  obtain ⟨bucket, member, empty⟩ := List.countP_pos_iff.mp
    (show 0 < table.countP (fun bucket => bucket.value?.isNone && !isDeletedBucket bucket) by omega)
  cases bucket with
  | empty => exact member
  | deleted => cases empty
  | value v => cases empty

variable [DecidableEq K]

/-- Where the loop for a key ends. -/
def stops (functions : HashFunctions K V) (key : K) : Bucket V → Bool
  | .empty => true
  | .deleted => false
  | .value v => functions.extract v = key

/-- Buckets at which the loop does not end are passed over. -/
theorem probeFrom_passes (laid : Laid functions table) (size : table.length = 2 ^ m) {turns j : Nat}
    (enough : j ≤ turns) (passed : ∀ j' < j, ∀ bucket,
      table[place functions table.length key j']? = some bucket → stops functions key bucket = false) :
    ∃ deletedEntry, probeFrom functions table (2 ^ m - 1) key turns (place functions table.length key 0) none =
        probeFrom functions table (2 ^ m - 1) key (turns - j) (place functions table.length key j) deletedEntry ∧
      ∀ d, deletedEntry = some d →
        ∃ j' < j, d = place functions table.length key j' ∧ table[d]? = some .deleted := by
  induction j with
  | zero => exact ⟨none, rfl, fun d never => by cases never⟩
  | succ j ih =>
    obtain ⟨deletedEntry, same, remembered⟩ := ih (Nat.le_of_succ_le enough) fun j' less =>
      passed j' (Nat.lt_succ_of_lt less)
    obtain ⟨rest, split⟩ := Nat.exists_eq_add_of_lt enough
    have left : turns - j = rest + 1 := by omega
    have left' : turns - (j + 1) = rest := by omega
    obtain ⟨bucket, here⟩ : ∃ bucket, table[place functions table.length key j]? = some bucket :=
      ⟨_, List.getElem?_eq_getElem (laid.place_lt key j)⟩
    have passes := passed j (Nat.lt_succ_self j) _ here
    have next : (place functions (2 ^ m) key j + stride functions key) &&& 2 ^ m - 1 =
        place functions (2 ^ m) key (j + 1) := place_succ j
    rw [← size] at next
    rw [same, left, left', probeFrom, here]
    cases bucket with
    | empty => cases passes
    | deleted =>
      refine ⟨some (place functions table.length key j), ?_, ?_⟩
      · dsimp only
        rw [← size, next]
      · rintro d ⟨⟩
        exact ⟨j, Nat.lt_succ_self j, rfl, here⟩
    | value v =>
      refine ⟨deletedEntry, ?_, ?_⟩
      · dsimp only
        rw [if_neg (of_decide_eq_false passes), ← size, next]
      · intro d is
        obtain ⟨j', less, rest⟩ := remembered d is
        exact ⟨j', Nat.lt_succ_of_lt less, rest⟩

/-- The first bucket at which the loop for a key ends. -/
theorem Laid.exists_stop (laid : Laid functions table) (empty : .empty ∈ table) (key : K) :
    ∃ j < table.length, ∃ bucket, table[place functions table.length key j]? = some bucket ∧
      stops functions key bucket = true ∧ ∀ j' < j, ∀ bucket,
        table[place functions table.length key j']? = some bucket → stops functions key bucket = false := by
  obtain ⟨m, size⟩ := laid.power
  obtain ⟨p, here⟩ := List.getElem?_of_mem empty
  have inside := (List.getElem?_eq_some_iff.mp here).1
  rw [size] at inside
  obtain ⟨j₀, small, comes⟩ := exists_probe (stride_odd functions key) (functions.hash key).toNat inside
  let Stop (j : Nat) : Prop := ∃ bucket, table[place functions table.length key j]? = some bucket ∧
    stops functions key bucket = true
  have stop : Stop j₀ := ⟨.empty, by rw [size, place, comes]; exact here, rfl⟩
  rw [← size] at small
  classical
  have some_stop : ∃ j, Stop j := ⟨j₀, stop⟩
  obtain ⟨bucket, found, ends⟩ := Nat.find_spec some_stop
  refine ⟨Nat.find some_stop, ?_, bucket, found, ends, fun j' less bucket here => ?_⟩
  · exact Nat.lt_of_le_of_lt (Nat.find_min' some_stop stop) small
  · have going := Nat.find_min some_stop less
    rw [Bool.eq_false_iff]
    exact fun ends => going ⟨bucket, here, ends⟩

/-- A key that is stored is found where it is. -/
theorem Laid.probe_present (laid : Laid functions table) (empty : .empty ∈ table)
    (here : table[p]? = some (.value v)) :
    probeFrom functions table (table.length - 1) (functions.extract v) table.length
      ((functions.hash (functions.extract v)).toNat &&& table.length - 1) none = some (.found p) := by
  obtain ⟨m, size⟩ := laid.power
  obtain ⟨j, small, bucket, found, ends, passed⟩ := laid.exists_stop empty (functions.extract v)
  obtain ⟨deletedEntry, same, -⟩ := probeFrom_passes laid size (Nat.le_of_lt small) passed
  obtain ⟨rest, split⟩ := Nat.exists_eq_add_of_lt small
  have left : table.length - j = rest + 1 := by omega
  rw [size, place_zero, ← size]
  rw [← size] at same
  rw [same, left, probeFrom, found]
  obtain ⟨j₁, rfl, before⟩ := laid.reached p v here
  -- the loop does not end before the bucket
  have least : j ≤ j₁ := by
    by_contra later
    have goes := passed j₁ (Nat.not_le.mp later) _ here
    rw [stops, decide_eq_false_iff_not] at goes
    exact goes rfl
  cases bucket with
  | empty =>
    rcases Nat.lt_or_eq_of_le least with less | equal
    · exact absurd found (before j less)
    · rw [equal, here] at found
      cases found
  | deleted => cases ends
  | value v' =>
    have key' : functions.extract v' = functions.extract v := of_decide_eq_true ends
    have place' := filterMap_unique (f := Bucket.value?) laid.once found here rfl rfl key'
    dsimp only
    rw [if_pos key', place']

/-- For a key that is not stored the loop ends at an empty bucket, and the deleted one that it remembers comes
before it. -/
theorem Laid.probe_absent (laid : Laid functions table) (empty : .empty ∈ table)
    (absent : ∀ v ∈ valuesOf table, functions.extract v ≠ key) : ∃ j deletedEntry,
    probeFrom functions table (table.length - 1) key table.length
        ((functions.hash key).toNat &&& table.length - 1) none =
      some (.vacant (place functions table.length key j) deletedEntry) ∧
    table[place functions table.length key j]? = some .empty ∧
    (∀ j' < j, table[place functions table.length key j']? ≠ some .empty) ∧
    ∀ d, deletedEntry = some d →
      ∃ j' < j, d = place functions table.length key j' ∧ table[d]? = some .deleted := by
  obtain ⟨m, size⟩ := laid.power
  obtain ⟨j, small, bucket, found, ends, passed⟩ := laid.exists_stop empty key
  obtain ⟨deletedEntry, same, remembered⟩ := probeFrom_passes laid size (Nat.le_of_lt small) passed
  obtain ⟨rest, split⟩ := Nat.exists_eq_add_of_lt small
  have left : table.length - j = rest + 1 := by omega
  cases bucket with
  | empty =>
    refine ⟨j, deletedEntry, ?_, found, fun j' less here => ?_, remembered⟩
    · rw [size, place_zero, ← size]
      rw [← size] at same
      rw [same, left, probeFrom, found]
    · cases passed j' less _ here
  | deleted => cases ends
  | value v =>
    exact absurd (of_decide_eq_true ends) (absent v (mem_valuesOf.mpr ⟨_, found⟩))

omit [DecidableEq K] in
theorem not_empty_set {q : Nat} {bucket : Bucket V} (filled : bucket ≠ .empty)
    (other : table[q]? ≠ some .empty) (p : Nat) : (table.set p bucket)[q]? ≠ some .empty := by
  rw [List.getElem?_set]
  split_ifs
  · exact fun same => filled (Option.some.inj same)
  · rintro ⟨⟩
  · exact other

omit [DecidableEq K] in
/-- A value is put into a free bucket on the way of its key. -/
theorem Laid.fill (laid : Laid functions table) {j : Nat} {bucket : Bucket V}
    (absent : ∀ old ∈ valuesOf table, functions.extract old ≠ functions.extract v)
    (here : table[place functions table.length (functions.extract v) j]? = some bucket)
    (free : bucket.value? = none)
    (before : ∀ j' < j, table[place functions table.length (functions.extract v) j']? ≠ some .empty) :
    Laid functions (table.set (place functions table.length (functions.extract v) j) (.value v)) ∧
      (valuesOf (table.set (place functions table.length (functions.extract v) j) (.value v))).Perm
        (v :: valuesOf table) := by
  have perm := filterMap_set_some (f := Bucket.value?) (b := .value v) here free rfl
  have filled : Bucket.value v ≠ .empty := by rintro ⟨⟩
  refine ⟨⟨?_, ?_, ?_⟩, perm⟩
  · rw [List.length_set]
    exact laid.power
  · refine (perm.map functions.extract).nodup_iff.mpr ?_
    rw [List.map_cons, List.nodup_cons]
    refine ⟨fun member => ?_, laid.once⟩
    obtain ⟨old, stored, same⟩ := List.mem_map.mp member
    exact absent old stored same
  · intro p v' there
    rw [List.length_set]
    rw [List.getElem?_set] at there
    by_cases same : place functions table.length (functions.extract v) j = p
    · rw [if_pos same, if_pos (laid.place_lt _ _)] at there
      cases there
      exact ⟨j, same.symm, fun j' less => not_empty_set filled (before j' less) _⟩
    · rw [if_neg same] at there
      obtain ⟨j', comes, before'⟩ := laid.reached p v' there
      exact ⟨j', comes, fun j'' less => not_empty_set filled (before' j'' less) _⟩

omit [DecidableEq K] in
/-- A value is marked as deleted. -/
theorem Laid.drop (laid : Laid functions table) (here : table[p]? = some (.value v)) :
    Laid functions (table.set p .deleted) ∧
      (valuesOf table).Perm (v :: valuesOf (table.set p .deleted)) := by
  have perm := filterMap_set_none (f := Bucket.value?) (b := .deleted) here rfl rfl
  have filled : (Bucket.deleted : Bucket V) ≠ .empty := by rintro ⟨⟩
  refine ⟨⟨?_, ?_, ?_⟩, perm⟩
  · rw [List.length_set]
    exact laid.power
  · have once := (perm.map functions.extract).nodup_iff.mp laid.once
    exact (List.nodup_cons.mp once).2
  · intro q v' there
    rw [List.length_set]
    rw [List.getElem?_set] at there
    by_cases same : p = q
    · rw [if_pos same] at there
      split_ifs at there
      cases there
    · rw [if_neg same] at there
      obtain ⟨j, comes, before⟩ := laid.reached q v' there
      exact ⟨j, comes, fun j' less => not_empty_set filled (before j' less) _⟩

omit [DecidableEq K] in
theorem laid_replicate (functions : HashFunctions K V) (m : Nat) :
    Laid functions (List.replicate (2 ^ m) .empty) := by
  have nothing : valuesOf (List.replicate (2 ^ m) (.empty : Bucket V)) = [] := by
    rw [valuesOf, List.filterMap_replicate]
    rfl
  refine ⟨⟨m, List.length_replicate⟩, ?_, fun p v here => ?_⟩
  · rw [nothing]
    exact List.nodup_nil
  · cases List.eq_of_mem_replicate (List.mem_of_getElem? here)

end

/-! A table. -/

section
variable {K V : Type} {functions : HashFunctions K V} {t : HashTable V} {table : List (Bucket V)} {v : V}

/-- The buckets of a table and its sizes. -/
structure Sized (functions : HashFunctions K V) (t : HashTable V) (table : List (Bucket V)) : Prop where
  held : t.m_table = some table
  laid : Laid functions table
  size : t.m_tableSize = table.length
  mask : t.m_tableSizeMask = table.length - 1

/-- Between the operations the counts are right and less than half of the buckets is in use. -/
structure Kept (functions : HashFunctions K V) (t : HashTable V) (table : List (Bucket V)) : Prop
    extends Sized functions t table where
  least : 64 ≤ table.length
  keys : t.m_keyCount = (valuesOf table).length
  marks : t.m_deletedCount = table.countP isDeletedBucket
  load : (t.m_keyCount + t.m_deletedCount) * 2 < table.length

/-- A null table or one with buckets. -/
def Stored (functions : HashFunctions K V) (t : HashTable V) : Prop :=
  t.m_table = none ∧ t.m_tableSize = 0 ∧ t.m_keyCount = 0 ∨ ∃ table, Kept functions t table

theorem Sized.values_eq (sized : Sized functions t table) : t.values = valuesOf table := by
  rw [values, sized.held]
  rfl

theorem Sized.valueAt_eq (sized : Sized functions t table) {p : Nat} (here : table[p]? = some (.value v)) :
    t.valueAt (some p) = some v := by
  rw [valueAt, sized.held]
  show (table[p]?).bind Bucket.value? = some v
  rw [here]
  rfl

theorem Kept.empty (kept : Kept functions t table) : .empty ∈ table := by
  apply exists_empty
  have load := kept.load
  rw [kept.keys, kept.marks] at load
  omega

theorem Sized.once (sized : Sized functions t table) : (t.values.map functions.extract).Nodup := by
  rw [sized.values_eq]
  exact sized.laid.once

theorem Sized.exponent (sized : Sized functions t table) (least : 64 ≤ table.length) :
    ∃ m, 6 ≤ m ∧ table.length = 2 ^ m := by
  obtain ⟨m, size⟩ := sized.laid.power
  refine ⟨m, ?_, size⟩
  rw [size] at least
  exact (Nat.pow_le_pow_iff_right (by decide)).mp (show 2 ^ 6 ≤ 2 ^ m from least)

theorem Stored.values_nodup (stored : Stored functions t) : (t.values.map functions.extract).Nodup := by
  rcases stored with ⟨null, -⟩ | ⟨table, kept⟩
  · rw [values, null]
    exact List.nodup_nil
  · exact kept.once

variable [DecidableEq K] {key : K}

theorem Sized.probe_eq (sized : Sized functions t table) (key : K) : t.probe functions key =
    probeFrom functions table (table.length - 1) key table.length
      ((functions.hash key).toNat &&& table.length - 1) none := by
  rw [probe, sized.held, sized.size, sized.mask]
  rfl

theorem Sized.reinsert (sized : Sized functions t table) (unmarked : table.countP isDeletedBucket = 0)
    (room : (valuesOf table).length < table.length)
    (absent : ∀ old ∈ valuesOf table, functions.extract old ≠ functions.extract v) :
    ∃ table', t.reinsert functions v = some { t with m_table := some table' } ∧
      Sized functions { t with m_table := some table' } table' ∧ table'.length = table.length ∧
      table'.countP isDeletedBucket = 0 ∧ (valuesOf table').Perm (v :: valuesOf table) := by
  have empty : .empty ∈ table := exists_empty (by omega)
  obtain ⟨j, deletedEntry, found, here, before, remembered⟩ := sized.laid.probe_absent empty absent
  have none_deleted : deletedEntry = none := by
    cases deletedEntry with
    | none => rfl
    | some d =>
      obtain ⟨-, -, -, deleted⟩ := remembered d rfl
      exact absurd rfl (List.countP_eq_zero.mp unmarked _ (List.mem_of_getElem? deleted))
  obtain ⟨laid, perm⟩ := sized.laid.fill absent here rfl before
  refine ⟨_, ?_, ⟨rfl, laid, ?_, ?_⟩, List.length_set, ?_, perm⟩
  · rw [HashTable.reinsert, lookupForWriting, sized.probe_eq, found, none_deleted]
    show some (t.write _ _) = _
    rw [write, sized.held]
    rfl
  · rw [List.length_set]
    exact sized.size
  · rw [List.length_set]
    exact sized.mask
  · have count := countP_set here (.value v) isDeletedBucket
    rw [unmarked] at count
    exact count

theorem Sized.reinsertAll {vs : List V} (sized : Sized functions t table)
    (unmarked : table.countP isDeletedBucket = 0) (room : (valuesOf table).length + vs.length < table.length)
    (once : ((valuesOf table ++ vs).map functions.extract).Nodup) :
    ∃ table', vs.foldlM (HashTable.reinsert functions) t = some { t with m_table := some table' } ∧
      Sized functions { t with m_table := some table' } table' ∧ table'.length = table.length ∧
      table'.countP isDeletedBucket = 0 ∧ (valuesOf table').Perm (valuesOf table ++ vs) := by
  induction vs generalizing t table with
  | nil =>
    have same : { t with m_table := some table } = t := by rw [← sized.held]
    refine ⟨table, ?_, ?_, rfl, unmarked, ?_⟩
    · rw [same]
      rfl
    · rw [same]
      exact sized
    · rw [List.append_nil]
  | cons v vs ih =>
    have absent : ∀ old ∈ valuesOf table, functions.extract old ≠ functions.extract v := by
      rw [List.map_append, List.nodup_append] at once
      intro old member
      exact once.2.2 _ (List.mem_map_of_mem member) _ (List.mem_map_of_mem List.mem_cons_self)
    rw [List.length_cons] at room
    obtain ⟨table₁, first, sized₁, length₁, unmarked₁, perm₁⟩ := sized.reinsert unmarked (by omega) absent
    have count := perm₁.length_eq
    rw [List.length_cons] at count
    have moved : (valuesOf table₁ ++ vs).Perm (valuesOf table ++ v :: vs) :=
      (perm₁.append_right vs).trans List.perm_middle.symm
    obtain ⟨table', rest, sized', length', unmarked', perm'⟩ := ih sized₁ unmarked₁ (by omega)
      ((moved.map functions.extract).nodup_iff.mpr once)
    refine ⟨table', ?_, sized', length'.trans length₁, unmarked', perm'.trans moved⟩
    rw [List.foldlM_cons, first]
    exact rest

/-- The values are put into a table of another size. -/
theorem rehash_spec (once : (t.values.map functions.extract).Nodup) {m : Nat} (room : t.values.length < 2 ^ m) :
    ∃ table, t.rehash functions (2 ^ m) = some { t with
        m_table := some table, m_tableSize := 2 ^ m, m_tableSizeMask := 2 ^ m - 1, m_deletedCount := 0 } ∧
      Laid functions table ∧ table.length = 2 ^ m ∧ table.countP isDeletedBucket = 0 ∧
      (valuesOf table).Perm t.values := by
  have nothing : valuesOf (List.replicate (2 ^ m) (.empty : Bucket V)) = [] := by
    rw [valuesOf, List.filterMap_replicate]
    rfl
  have unmarked : (List.replicate (2 ^ m) (.empty : Bucket V)).countP isDeletedBucket = 0 := by
    rw [List.countP_replicate]
    rfl
  have sized : Sized functions { t with
      m_table := some (List.replicate (2 ^ m) .empty), m_tableSize := 2 ^ m, m_tableSizeMask := 2 ^ m - 1 }
      (List.replicate (2 ^ m) .empty) := by
    refine ⟨rfl, laid_replicate functions m, ?_, ?_⟩
    · rw [List.length_replicate]
    · rw [List.length_replicate]
  have once' : ((valuesOf (List.replicate (2 ^ m) .empty) ++ t.values).map functions.extract).Nodup := by
    rw [nothing]
    exact once
  obtain ⟨table, filled, sized', length, unmarked', perm⟩ := sized.reinsertAll unmarked
    (by rw [nothing, List.length_replicate]; simpa using room) once'
  rw [List.length_replicate] at length
  rw [nothing, List.nil_append] at perm
  refine ⟨table, ?_, sized'.laid, length, unmarked', perm⟩
  rw [rehash, filled]
  rfl

theorem kept_rehash (once : (t.values.map functions.extract).Nodup) (keys : t.m_keyCount = t.values.length)
    {m : Nat} (least : 6 ≤ m) (room : t.m_keyCount * 2 < 2 ^ m) :
    ∃ t' table, t.rehash functions (2 ^ m) = some t' ∧ Kept functions t' table ∧
      (valuesOf table).Perm t.values := by
  obtain ⟨table, filled, laid, length, unmarked, perm⟩ :=
    rehash_spec once (show t.values.length < 2 ^ m by omega)
  refine ⟨_, table, filled, ⟨⟨rfl, laid, length.symm, ?_⟩, ?_, ?_, ?_, ?_⟩, perm⟩
  · rw [length]
  · rw [length]
    exact (Nat.pow_le_pow_right Nat.two_pos least : 2 ^ 6 ≤ 2 ^ m)
  · exact keys.trans perm.length_eq.symm
  · exact unmarked.symm
  · rw [length]
    exact room

theorem Sized.expand (sized : Sized functions t table) (least : 64 ≤ table.length)
    (keys : t.m_keyCount = (valuesOf table).length) (small : t.m_keyCount * 2 ≤ table.length) :
    ∃ t' table', t.expand functions = some t' ∧ Kept functions t' table' ∧
      (valuesOf table').Perm (valuesOf table) := by
  obtain ⟨m, large, size⟩ := sized.exponent least
  have keys' : t.m_keyCount = t.values.length := by rw [sized.values_eq, keys]
  have some_size : ¬t.m_tableSize = 0 := by
    rw [sized.size]
    omega
  rw [HashTable.expand, if_neg some_size, ← sized.values_eq]
  by_cases inPlace : t.mustRehashInPlace = true
  · rw [if_pos inPlace, sized.size, size]
    rw [mustRehashInPlace, decide_eq_true_eq, sized.size, size, m_minLoad] at inPlace
    exact kept_rehash sized.once keys' large (by omega)
  · rw [if_neg inPlace, sized.size, size, ← Nat.pow_succ]
    rw [size] at small
    refine kept_rehash sized.once keys' (Nat.le_succ_of_le large) ?_
    rw [Nat.pow_succ]
    have positive := Nat.two_pow_pos m
    omega

theorem Kept.probe_present (kept : Kept functions t table) (stored : v ∈ valuesOf table) :
    ∃ p, t.probe functions (functions.extract v) = some (.found p) ∧ table[p]? = some (.value v) := by
  obtain ⟨p, here⟩ := mem_valuesOf.mp stored
  refine ⟨p, ?_, here⟩
  rw [kept.probe_eq]
  exact kept.laid.probe_present kept.empty here

theorem Sized.lookup_eq (sized : Sized functions t table) (key : K) : t.lookup functions key =
    (t.probe functions key).map fun
      | .found entry => some entry
      | .vacant _ _ => none := by
  rw [lookup, sized.held]
  rfl

theorem find_eq (t : HashTable V) (key : K) : t.find functions key = t.lookup functions key := by
  unfold find lookup
  split_ifs <;> rfl

theorem Kept.find_present (kept : Kept functions t table) (stored : v ∈ valuesOf table) :
    ∃ p, t.find functions (functions.extract v) = some (some p) ∧ table[p]? = some (.value v) := by
  obtain ⟨p, found, here⟩ := kept.probe_present stored
  refine ⟨p, ?_, here⟩
  rw [find_eq, kept.lookup_eq, found]
  rfl

theorem Kept.find_absent (kept : Kept functions t table)
    (absent : ∀ v ∈ valuesOf table, functions.extract v ≠ key) : t.find functions key = some none := by
  obtain ⟨j, deletedEntry, found, -⟩ := kept.laid.probe_absent kept.empty absent
  rw [find_eq, kept.lookup_eq, kept.probe_eq, found]
  rfl

/-- What is entered stays where it is put unless the table grows. -/
theorem Sized.enter (sized : Sized functions t table) (least : 64 ≤ table.length)
    (keys : t.m_keyCount = (valuesOf table).length) (room : (valuesOf table).length * 2 < table.length)
    {j : Nat} {bucket : Bucket V} (absent : ∀ old ∈ valuesOf table, functions.extract old ≠ functions.extract v)
    (here : table[place functions table.length (functions.extract v) j]? = some bucket)
    (free : bucket.value? = none)
    (before : ∀ j' < j, table[place functions table.length (functions.extract v) j']? ≠ some .empty)
    (marks : t.m_deletedCount =
      (table.set (place functions table.length (functions.extract v) j) (.value v)).countP isDeletedBucket) :
    ∃ entry t' table', t.enter functions (place functions table.length (functions.extract v) j) v =
        some ((some entry, true), t') ∧ Kept functions t' table' ∧ table'[entry]? = some (.value v) ∧
      (valuesOf table').Perm (v :: valuesOf table) := by
  obtain ⟨laid, perm⟩ := sized.laid.fill absent here free before
  generalize place functions table.length (functions.extract v) j = p at *
  have entered : Sized functions { t.write p (.value v) with m_keyCount := t.m_keyCount + 1 }
      (table.set p (.value v)) := by
    refine ⟨?_, laid, ?_, ?_⟩
    · show t.m_table.map _ = _
      rw [sized.held]
      rfl
    · rw [List.length_set]
      exact sized.size
    · rw [List.length_set]
      exact sized.mask
  have least' : 64 ≤ (table.set p (.value v)).length := by rwa [List.length_set]
  have keys' : t.m_keyCount + 1 = (valuesOf (table.set p (.value v))).length := by
    rw [keys, perm.length_eq, List.length_cons]
  unfold HashTable.enter
  dsimp only
  by_cases full : ({ t.write p (.value v) with m_keyCount := t.m_keyCount + 1 } : HashTable V).shouldExpand = true
  · rw [if_pos full]
    obtain ⟨m, large, size⟩ := sized.exponent least
    obtain ⟨m, rfl⟩ := Nat.exists_eq_add_of_le' large
    have small : (t.m_keyCount + 1) * 2 ≤ (table.set p (.value v)).length := by
      rw [List.length_set, keys]
      rw [size, Nat.pow_add] at room ⊢
      omega
    obtain ⟨t', table', grown, kept, perm'⟩ := entered.expand least' keys' small
    have whole := perm'.trans perm
    obtain ⟨entry, found, here'⟩ := kept.find_present (whole.mem_iff.mpr List.mem_cons_self)
    refine ⟨entry, t', table', ?_, kept, here', whole⟩
    rw [grown]
    show (t'.find functions (functions.extract v)).bind _ = _
    rw [found]
    rfl
  · rw [if_neg full]
    rw [shouldExpand, decide_eq_true_eq, ge_iff_le, Nat.not_le] at full
    refine ⟨p, _, _, rfl, ⟨entered, least', keys', marks, ?_⟩, ?_, perm⟩
    · rw [List.length_set, ← sized.size]
      exact full
    · rw [List.getElem?_set, if_pos rfl, if_pos (List.getElem?_eq_some_iff.mp here).1]

/-- A null table gets buckets. -/
theorem Stored.allocated (stored : Stored functions t) : ∃ t' table, t.allocated functions = some t' ∧
    Kept functions t' table ∧ (valuesOf table).Perm t.values := by
  unfold HashTable.allocated
  rcases stored with ⟨null, size, keys⟩ | ⟨table, kept⟩
  · have nothing : t.values = [] := by
      rw [values, null]
      rfl
    rw [null, expand, if_pos size]
    refine kept_rehash (m := 6) ?_ ?_ (Nat.le_refl 6) ?_
    · rw [nothing]
      exact List.nodup_nil
    · rw [nothing]
      exact keys
    · rw [keys]
      decide
  · refine ⟨t, table, ?_, kept, ?_⟩
    · rw [kept.held]
      rfl
    · rw [kept.values_eq]

/-- `add` finds the value with the key or enters a new one. -/
theorem Stored.add (stored : Stored functions t) (v : V) :
    ∃ entry new t' table, t.add functions v = some ((some entry, new), t') ∧ Kept functions t' table ∧
      ((∃ old ∈ t.values, functions.extract old = functions.extract v ∧ new = false ∧
          table[entry]? = some (.value old) ∧ (valuesOf table).Perm t.values) ∨
        (∀ old ∈ t.values, functions.extract old ≠ functions.extract v) ∧ new = true ∧
          table[entry]? = some (.value v) ∧ (valuesOf table).Perm (v :: t.values)) := by
  obtain ⟨t₁, table₁, allocated, kept, perm⟩ := stored.allocated
  unfold HashTable.add
  rw [allocated]
  dsimp only [Option.bind_eq_bind, Option.bind_some]
  by_cases known : ∃ old ∈ valuesOf table₁, functions.extract old = functions.extract v
  · obtain ⟨old, member, same⟩ := known
    obtain ⟨p, found, here⟩ := kept.probe_present member
    rw [same] at found
    rw [found]
    exact ⟨p, false, t₁, table₁, rfl, kept, .inl ⟨old, perm.mem_iff.mp member, same, rfl, here, perm⟩⟩
  · have absent : ∀ old ∈ valuesOf table₁, functions.extract old ≠ functions.extract v :=
      fun old member same => known ⟨old, member, same⟩
    have absent' : ∀ old ∈ t.values, functions.extract old ≠ functions.extract v :=
      fun old member => absent old (perm.mem_iff.mpr member)
    obtain ⟨j, deletedEntry, found, here, before, remembered⟩ := kept.laid.probe_absent kept.empty absent
    have room : (valuesOf table₁).length * 2 < table₁.length := by
      have load := kept.load
      rw [kept.keys] at load
      omega
    rw [kept.probe_eq, found]
    dsimp only [Option.bind_some]
    cases deletedEntry with
    | none =>
      have marks := countP_set here (.value v) isDeletedBucket
      obtain ⟨entry, t', table', entered, kept', here', perm'⟩ := kept.toSized.enter kept.least kept.keys room
        absent here rfl before (kept.marks.trans marks.symm)
      exact ⟨entry, true, t', table', entered, kept', .inr ⟨absent', rfl, here', perm'.trans (perm.cons v)⟩⟩
    | some d =>
      obtain ⟨j', less, rfl, deleted⟩ := remembered d rfl
      have marks := countP_set deleted (.value v) isDeletedBucket
      have fewer : ({ t₁ with m_deletedCount := t₁.m_deletedCount - 1 } : HashTable V).m_deletedCount =
          (table₁.set (place functions table₁.length (functions.extract v) j') (.value v)).countP
            isDeletedBucket := by
        show t₁.m_deletedCount - 1 = _
        rw [kept.marks, ← Nat.add_zero (table₁.countP _)]
        exact Nat.sub_eq_of_eq_add marks.symm
      obtain ⟨entry, t', table', entered, kept', here', perm'⟩ :=
        Sized.enter (t := { t₁ with m_deletedCount := t₁.m_deletedCount - 1 })
          ⟨kept.held, kept.laid, kept.size, kept.mask⟩ kept.least kept.keys room absent deleted rfl
          (fun j'' less' => before j'' (Nat.lt_trans less' less)) fewer
      exact ⟨entry, true, t', table', entered, kept', .inr ⟨absent', rfl, here', perm'.trans (perm.cons v)⟩⟩

/-- The two ways to add a value do the same. -/
theorem Stored.addPassingHashCode_eq (stored : Stored functions t) (v : V) :
    t.addPassingHashCode functions v = t.add functions v := by
  obtain ⟨t₁, table₁, allocated, kept, -⟩ := stored.allocated
  unfold HashTable.add HashTable.addPassingHashCode fullLookupForWriting lookupForWriting
  rw [allocated]
  dsimp only [Option.bind_eq_bind, Option.bind_some]
  have bucketAt (p : Nat) : (t₁.m_table.getD [])[p]? = table₁[p]? := by
    rw [kept.held]
    rfl
  by_cases known : ∃ old ∈ valuesOf table₁, functions.extract old = functions.extract v
  · obtain ⟨old, member, same⟩ := known
    obtain ⟨p, found, -⟩ := kept.probe_present member
    rw [same] at found
    rw [found]
    rfl
  · obtain ⟨j, deletedEntry, found, here, -, remembered⟩ := kept.laid.probe_absent kept.empty
      fun old member same => known ⟨old, member, same⟩
    rw [kept.probe_eq, found]
    cases deletedEntry with
    | none =>
      show (if ((t₁.m_table.getD [])[place functions table₁.length (functions.extract v) j]?).any
        isDeletedBucket = true then _ else _) = _
      rw [bucketAt, here]
      rfl
    | some d =>
      obtain ⟨-, -, -, deleted⟩ := remembered d rfl
      show (if ((t₁.m_table.getD [])[d]?).any isDeletedBucket = true then _ else _) = _
      rw [bucketAt, deleted]
      rfl

theorem Stored.lookup_absent (stored : Stored functions t)
    (absent : ∀ v ∈ t.values, functions.extract v ≠ key) : t.lookup functions key = some none := by
  rcases stored with ⟨null, -⟩ | ⟨table, kept⟩
  · rw [lookup, null]
    rfl
  · rw [kept.values_eq] at absent
    rw [← find_eq]
    exact kept.find_absent absent

theorem Stored.lookup_present (stored : Stored functions t) (member : v ∈ t.values) :
    ∃ p, t.lookup functions (functions.extract v) = some (some p) ∧ t.valueAt (some p) = some v := by
  rcases stored with ⟨null, -⟩ | ⟨table, kept⟩
  · rw [values, null] at member
    cases member
  · rw [kept.values_eq] at member
    obtain ⟨p, found, here⟩ := kept.find_present member
    rw [← find_eq]
    exact ⟨p, found, kept.valueAt_eq here⟩

theorem Stored.remove_absent (stored : Stored functions t)
    (absent : ∀ v ∈ t.values, functions.extract v ≠ key) : t.remove functions key = some t := by
  rw [HashTable.remove, find_eq, stored.lookup_absent absent]
  rfl

/-- The value is marked as deleted, and a table that is nearly empty shrinks. -/
theorem Stored.remove_present (stored : Stored functions t) (member : v ∈ t.values) :
    ∃ t' table, t.remove functions (functions.extract v) = some t' ∧ Kept functions t' table ∧
      t.values.Perm (v :: valuesOf table) := by
  rcases stored with ⟨null, -⟩ | ⟨table, kept⟩
  · rw [values, null] at member
    cases member
  · rw [kept.values_eq] at member ⊢
    obtain ⟨p, found, here⟩ := kept.find_present member
    obtain ⟨laid, perm⟩ := kept.laid.drop here
    have count := perm.length_eq
    rw [List.length_cons] at count
    have keys := kept.keys
    have load := kept.load
    have removed : Sized functions { t.write p .deleted with
        m_deletedCount := t.m_deletedCount + 1, m_keyCount := t.m_keyCount - 1 } (table.set p .deleted) := by
      refine ⟨?_, laid, ?_, ?_⟩
      · show t.m_table.map _ = _
        rw [kept.held]
        rfl
      · rw [List.length_set]
        exact kept.size
      · rw [List.length_set]
        exact kept.mask
    have keys' : t.m_keyCount - 1 = (valuesOf (table.set p .deleted)).length := by omega
    rw [HashTable.remove, found]
    dsimp only [Option.bind_eq_bind, Option.bind_some]
    unfold removeAt
    dsimp only
    split_ifs with shrinks
    · rw [shouldShrink, Bool.and_eq_true, decide_eq_true_eq, decide_eq_true_eq, removed.size,
        List.length_set] at shrinks
      obtain ⟨m, large, size⟩ := kept.exponent kept.least
      obtain ⟨fewKeys, above⟩ := shrinks
      have exponent : 6 < m := by
        rw [size] at above
        exact (Nat.pow_lt_pow_iff_right (by decide)).mp (show 2 ^ 6 < 2 ^ m from above)
      obtain ⟨m, rfl⟩ := Nat.exists_eq_add_of_lt exponent
      have half : t.m_tableSize / 2 = 2 ^ (6 + m) := by
        rw [kept.size, size, Nat.pow_succ, Nat.mul_div_cancel _ Nat.two_pos]
      obtain ⟨t', table', shrunk, kept', perm'⟩ := kept_rehash (m := 6 + m) removed.once
        (keys'.trans (congrArg List.length removed.values_eq).symm) (Nat.le_add_right 6 m) (by
          rw [size, Nat.pow_succ, m_minLoad] at fewKeys
          show (t.m_keyCount - 1) * 2 < 2 ^ (6 + m)
          have fewKeys : (t.m_keyCount - 1) * 6 < 2 ^ (6 + m) * 2 := fewKeys
          omega)
      rw [removed.values_eq] at perm'
      refine ⟨t', table', ?_, kept', perm.trans (perm'.symm.cons v)⟩
      show HashTable.rehash functions _ (t.m_tableSize / 2) = _
      rw [half]
      exact shrunk
    · have least : 64 ≤ (table.set p .deleted).length := by
        rw [List.length_set]
        exact kept.least
      refine ⟨_, _, rfl, ⟨removed, least, keys', ?_, ?_⟩, perm⟩
      · have marks := countP_set here .deleted isDeletedBucket
        show t.m_deletedCount + 1 = _
        rw [kept.marks]
        exact marks.symm
      · rw [List.length_set]
        show (t.m_keyCount - 1 + (t.m_deletedCount + 1)) * 2 < table.length
        omega

omit [DecidableEq K] in
theorem empty_stored : Stored functions ({} : HashTable V) := .inl ⟨rfl, rfl, rfl⟩

omit [DecidableEq K] in
theorem Kept.stored (kept : Kept functions t table) : Stored functions t := .inr ⟨table, kept⟩

/-- A null table has no deleted bucket to count. -/
def Fresh (t : HashTable V) : Prop := t.m_table = none → t.m_deletedCount = 0

omit [DecidableEq K] in
theorem Kept.fresh (kept : Kept functions t table) : Fresh t := by
  intro null
  rw [kept.held] at null
  cases null

/-- Every value is added. -/
theorem Stored.addAll {vs : List V} (stored : Stored functions t) (fresh : Fresh t)
    (once : ((t.values ++ vs).map functions.extract).Nodup) :
    ∃ t', vs.foldlM (fun t v => (t.add functions v).map Prod.snd) t = some t' ∧ Stored functions t' ∧
      Fresh t' ∧ t'.values.Perm (t.values ++ vs) := by
  induction vs generalizing t with
  | nil => exact ⟨t, rfl, stored, fresh, by rw [List.append_nil]⟩
  | cons v vs ih =>
    obtain ⟨entry, new, t₁, table, added, kept, known | ⟨-, -, -, perm⟩⟩ := stored.add v
    · obtain ⟨old, member, same, -⟩ := known
      rw [List.map_append, List.nodup_append] at once
      exact absurd same (once.2.2 _ (List.mem_map_of_mem member) _ (List.mem_map_of_mem List.mem_cons_self))
    · rw [← kept.values_eq] at perm
      have moved : (t₁.values ++ vs).Perm (t.values ++ v :: vs) :=
        (perm.append_right vs).trans List.perm_middle.symm
      obtain ⟨t', rest, stored', fresh', perm'⟩ := ih kept.stored kept.fresh
        ((moved.map functions.extract).nodup_iff.mpr once)
      refine ⟨t', ?_, stored', fresh', perm'.trans moved⟩
      rw [List.foldlM_cons, added]
      exact rest

theorem Stored.assign {other : HashTable V} (stored : Stored functions other) (t : HashTable V) :
    ∃ t', t.assign functions other = some t' ∧ Stored functions t' ∧ Fresh t' ∧
      t'.values.Perm other.values := by
  have once : ((({} : HashTable V).values ++ other.values).map functions.extract).Nodup := stored.values_nodup
  obtain ⟨t', copied, stored', fresh, perm⟩ := empty_stored.addAll (fun _ => rfl) once
  refine ⟨t', ?_, stored', fresh, perm⟩
  rw [HashTable.assign, HashTable.copy, copied]
  rfl

/-! Values as a map. -/

def Listed (functions : HashFunctions K V) (vs : List V) (map : K → Option V) : Prop :=
  ∀ key v, map key = some v ↔ v ∈ vs ∧ functions.extract v = key

section
variable {vs vs' : List V} {map : K → Option V}

omit [DecidableEq K] in
theorem listed_nil : Listed functions ([] : List V) fun _ => none :=
  fun _ _ => iff_of_false (by rintro ⟨⟩) fun both => absurd both.1 List.not_mem_nil

omit [DecidableEq K] in
theorem Listed.perm (listed : Listed functions vs map) (perm : vs'.Perm vs) : Listed functions vs' map := by
  intro key v
  rw [perm.mem_iff]
  exact listed key v

omit [DecidableEq K] in
theorem Listed.absent (listed : Listed functions vs map) (nothing : map key = none) :
    ∀ v ∈ vs, functions.extract v ≠ key := by
  intro v member same
  rw [(listed key v).mpr ⟨member, same⟩] at nothing
  cases nothing

omit [DecidableEq K] in
theorem Listed.unknown (listed : Listed functions vs map) (absent : ∀ v ∈ vs, functions.extract v ≠ key) :
    map key = none := by
  cases known : map key with
  | none => rfl
  | some v =>
    obtain ⟨member, same⟩ := (listed key v).mp known
    exact absurd same (absent v member)

theorem Listed.insert (listed : Listed functions vs map)
    (absent : ∀ old ∈ vs, functions.extract old ≠ functions.extract v) (perm : vs'.Perm (v :: vs)) :
    Listed functions vs' (Function.update map (functions.extract v) (some v)) := by
  intro key v'
  rw [perm.mem_iff, List.mem_cons]
  by_cases same : key = functions.extract v
  · rw [same, Function.update_self]
    constructor
    · rintro ⟨⟩
      exact ⟨.inl rfl, rfl⟩
    · rintro ⟨rfl | member, equal⟩
      · rfl
      · exact absurd equal (absent v' member)
  · rw [Function.update_of_ne same, listed key v']
    constructor
    · exact fun both => ⟨.inr both.1, both.2⟩
    · rintro ⟨rfl | member, equal⟩
      · exact absurd equal.symm same
      · exact ⟨member, equal⟩

theorem Listed.erase (listed : Listed functions vs map) (perm : vs.Perm (v :: vs'))
    (once : (vs.map functions.extract).Nodup) :
    Listed functions vs' (Function.update map (functions.extract v) none) := by
  have once' := (perm.map functions.extract).nodup_iff.mp once
  rw [List.map_cons, List.nodup_cons] at once'
  intro key v'
  by_cases same : key = functions.extract v
  · rw [same, Function.update_self]
    refine iff_of_false (by rintro ⟨⟩) ?_
    rintro ⟨member, equal⟩
    exact once'.1 (equal ▸ List.mem_map_of_mem member)
  · rw [Function.update_of_ne same, listed key v', perm.mem_iff, List.mem_cons]
    constructor
    · rintro ⟨rfl | member, equal⟩
      · exact absurd equal.symm same
      · exact ⟨member, equal⟩
    · exact fun both => ⟨.inr both.1, both.2⟩

end

/-- A table holds what a map has, and where it is to be it is fresh. -/
def Good (functions : HashFunctions K V) (unmarked : Prop) (t : HashTable V) (map : K → Option V) : Prop :=
  Stored functions t ∧ Listed functions t.values map ∧ (unmarked → Fresh t)

theorem Good.refines {map : K → Option V} (good : Good functions True t map) : Refines functions t map := by
  obtain ⟨stored, listed, fresh⟩ := good
  refine ⟨fun key => ?_, stored.values_nodup, ?_, ?_, ?_⟩
  · cases known : map key with
    | none => exact ⟨none, stored.lookup_absent (listed.absent known), rfl⟩
    | some v =>
      obtain ⟨member, rfl⟩ := (listed key v).mp known
      obtain ⟨p, found, value⟩ := stored.lookup_present member
      exact ⟨some p, found, value⟩
  · rcases stored with ⟨null, -, keys⟩ | ⟨table, kept⟩
    · rw [values, null]
      exact keys
    · rw [kept.values_eq]
      exact kept.keys
  · rcases stored with ⟨null, -⟩ | ⟨table, kept⟩
    · rw [null]
      exact fresh trivial null
    · rw [kept.held]
      exact kept.marks
  · intro table held
    rcases stored with ⟨null, -⟩ | ⟨table', kept⟩
    · rw [null] at held
      cases held
    · rw [kept.held] at held
      cases held
      exact kept.empty

end

/-! Runs. -/

section
variable {ι K V : Type} [DecidableEq ι] {tables : ι → HashTable V} {maps : ι → K → Option V}
variable {functions : HashFunctions K V} {unmarked : Prop}

theorem good_update (good : ∀ i, Good functions unmarked (tables i) (maps i)) {t : HashTable V}
    {map : K → Option V} (changed : Good functions unmarked t map) (i : ι) :
    ∀ x, Good functions unmarked (Function.update tables i t x) (Function.update maps i map x) := by
  intro x
  by_cases same : x = i
  · rw [same, Function.update_self, Function.update_self]
    exact changed
  · rw [Function.update_of_ne same, Function.update_of_ne same]
    exact good x

variable [DecidableEq K]

/-- The answer of an operation that adds is that of the map. -/
theorem good_add (good : ∀ i, Good functions unmarked (tables i) (maps i)) (i : ι) (v : V) :
    ∃ entry new t, (tables i).add functions v = some ((some entry, new), t) ∧
      (t.valueAt (some entry), new) = (mapped functions maps (.add i v)).1 ∧
      ∀ x, Good functions unmarked (Function.update tables i t x) ((mapped functions maps (.add i v)).2 x) := by
  obtain ⟨stored, listed, -⟩ := good i
  obtain ⟨entry, new, t, table, added, kept, known | ⟨absent, rfl, here, perm⟩⟩ := stored.add v
  · obtain ⟨old, member, same, rfl, here, perm⟩ := known
    rw [← kept.values_eq] at perm
    have has : maps i (functions.extract v) = some old := (listed _ _).mpr ⟨member, same⟩
    refine ⟨entry, false, t, added, ?_, ?_⟩
    · rw [mapped, has, kept.valueAt_eq here]
    · rw [mapped, has]
      have whole := good_update good (i := i)
        (show Good functions unmarked t (maps i) from ⟨kept.stored, listed.perm perm, fun _ => kept.fresh⟩)
      rw [Function.update_eq_self] at whole
      exact whole
  · rw [← kept.values_eq] at perm
    have nothing : maps i (functions.extract v) = none := listed.unknown absent
    refine ⟨entry, true, t, added, ?_, ?_⟩
    · rw [mapped, nothing, kept.valueAt_eq here]
    · rw [mapped, nothing]
      exact good_update good ⟨kept.stored, listed.insert absent perm, fun _ => kept.fresh⟩ i

omit [DecidableEq ι] in
theorem good_remove (good : ∀ i, Good functions unmarked (tables i) (maps i)) (i : ι) (key : K) :
    ∃ t, (tables i).remove functions key = some t ∧
      Good functions unmarked t (Function.update (maps i) key none) := by
  obtain ⟨stored, listed, fresh⟩ := good i
  cases known : maps i key with
  | none =>
    refine ⟨tables i, stored.remove_absent (listed.absent known), stored, ?_, fresh⟩
    rw [← known, Function.update_eq_self]
    exact listed
  | some v =>
    obtain ⟨member, rfl⟩ := (listed key v).mp known
    obtain ⟨t, table, removed, kept, perm⟩ := stored.remove_present member
    rw [← kept.values_eq] at perm
    exact ⟨t, removed, kept.stored, listed.erase perm stored.values_nodup, fun _ => kept.fresh⟩

/-- Every operation ends, with the answer of the maps. -/
theorem perform_good (good : ∀ i, Good functions unmarked (tables i) (maps i)) (operation : Operation ι K V)
    (clears : unmarked → Unmarked (tables, maps) operation) :
    ∃ tables', perform functions tables operation = some ((mapped functions maps operation).1, tables') ∧
      ∀ i, Good functions unmarked (tables' i) ((mapped functions maps operation).2 i) := by
  cases operation with
  | add i v =>
    obtain ⟨entry, new, t, added, answer, good'⟩ := good_add good i v
    refine ⟨_, ?_, good'⟩
    rw [← answer, perform, added]
    rfl
  | addPassingHashCode i v =>
    obtain ⟨entry, new, t, added, answer, good'⟩ := good_add good i v
    rw [← (good i).1.addPassingHashCode_eq] at added
    refine ⟨_, ?_, good'⟩
    show _ = some ((mapped functions maps (.add i v)).1, _)
    rw [← answer, perform, added]
    rfl
  | remove i key =>
    obtain ⟨t, removed, good'⟩ := good_remove good i key
    refine ⟨_, ?_, good_update good good' i⟩
    rw [perform, removed]
    rfl
  | clear i =>
    have cleared : Good functions unmarked (tables i).clear fun _ => none :=
      ⟨.inl ⟨rfl, rfl, rfl⟩, listed_nil, fun ok _ => clears ok⟩
    exact ⟨_, rfl, good_update good cleared i⟩
  | swap i other => exact ⟨_, rfl, good_update (good_update good (good other) i) (good i) other⟩
  | assign i other =>
    obtain ⟨stored, listed, -⟩ := good other
    obtain ⟨t, copied, stored', fresh, perm⟩ := stored.assign (tables i)
    refine ⟨_, ?_, good_update good ⟨stored', listed.perm perm, fun _ => fresh⟩ i⟩
    rw [perform, copied]
    rfl
  | lookup i key =>
    obtain ⟨stored, listed, -⟩ := good i
    refine ⟨tables, ?_, good⟩
    rw [perform]
    cases known : maps i key with
    | none =>
      rw [stored.lookup_absent (listed.absent known), mapped, known]
      rfl
    | some v =>
      obtain ⟨member, rfl⟩ := (listed key v).mp known
      obtain ⟨p, found, value⟩ := stored.lookup_present member
      rw [found, mapped, known]
      show some ((HashTable.valueAt _ (some p), false), tables) = _
      rw [value]

theorem good_follow {now : (ι → HashTable V) × (ι → K → Option V)}
    (good : ∀ i, Good functions unmarked (now.1 i) (now.2 i)) (operation : Operation ι K V)
    (clears : unmarked → Unmarked now operation) : ∀ i, Good functions unmarked
      ((follow functions now operation).1 i) ((follow functions now operation).2 i) := by
  obtain ⟨tables', performed, good'⟩ := perform_good good operation clears
  rw [follow, performed]
  exact good'

/-- Whatever is done, every operation ends with the answer of the maps. -/
theorem answers_along (functions : HashFunctions K V) (operations : List (Operation ι K V)) :
    Along (follow functions)
      (fun now operation => (perform functions now.1 operation).map Prod.fst =
        some (mapped functions now.2 operation).1) (fun _ => {}, fun _ _ => none) operations := by
  have all : Along (follow functions) (fun _ _ => True) (fun _ => {}, fun _ _ => none) operations :=
    along_of_forall (fun _ _ => trivial) _ _
  refine (along_iff (fun now => ∀ i, Good functions False (now.1 i) (now.2 i)) (fun now operation good _ => ?_)
    (fun now operation good _ _ => good_follow good operation False.elim) _ _ (fun i => ?_) all).mpr all
  · obtain ⟨tables', performed, -⟩ := perform_good good operation False.elim
    rw [performed]
    exact iff_of_true rfl trivial
  · exact ⟨empty_stored, listed_nil, False.elim⟩

/-- While the counts are right only the clearing of a table with deleted buckets makes one wrong. -/
theorem agrees_iff {now : (ι → HashTable V) × (ι → K → Option V)}
    (good : ∀ i, Good functions True (now.1 i) (now.2 i)) (operation : Operation ι K V) :
    Agrees functions now operation ↔ Unmarked now operation := by
  constructor
  · rintro ⟨tables', performed, refines⟩
    cases operation with
    | clear i =>
      obtain rfl := (Prod.mk.inj (Option.some.inj performed)).2
      have count := (refines i).deletedCount
      rw [Function.update_self] at count
      exact count
    | add | addPassingHashCode | remove | swap | assign | lookup => trivial
  · intro clears
    obtain ⟨tables', performed, good'⟩ := perform_good good operation fun _ => clears
    exact ⟨tables', performed, fun i => (good' i).refines⟩

/-- The tables refine the maps exactly as long as none is cleared that has deleted buckets. -/
theorem refines_along_iff (functions : HashFunctions K V) (operations : List (Operation ι K V)) :
    Along (follow functions) (Agrees functions) (fun _ => {}, fun _ _ => none) operations ↔
      Along (follow functions) Unmarked (fun _ => {}, fun _ _ => none) operations := by
  have all : Along (follow functions) (fun _ _ => True) (fun _ => {}, fun _ _ => none) operations :=
    along_of_forall (fun _ _ => trivial) _ _
  exact along_iff (fun now => ∀ i, Good functions True (now.1 i) (now.2 i))
    (fun now operation good _ => agrees_iff good operation)
    (fun now operation good _ agrees => good_follow good operation fun _ =>
      (agrees_iff good operation).mp agrees) _ _ (fun _ => ⟨empty_stored, listed_nil, fun _ _ => rfl⟩) all

end

def identity : HashFunctions UInt32 UInt32 := { extract := id, hash := id }

/-- A key is added and removed, and the table cleared. -/
def clearsRemoved : List (Operation Unit UInt32 UInt32) :=
  [.add () 1, .remove () 1, .clear ()]

/-- The cleared table counts a deleted bucket. -/
theorem not_refines : ¬∀ operations : List (Operation Unit UInt32 UInt32),
    Along (follow identity) (Agrees identity) (fun _ => {}, fun _ _ => none) operations := by
  intro always
  obtain ⟨-, -, ⟨tables', performed, refines⟩, -⟩ := always clearsRemoved
  obtain rfl := (Prod.mk.inj (Option.some.inj performed)).2
  have count := (refines ()).deletedCount
  revert count
  decide

end HashTable

end WkcBrowser.Wtf
