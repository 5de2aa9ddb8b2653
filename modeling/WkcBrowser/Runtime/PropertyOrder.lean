import WkcBrowser.Runtime.PropertyTables
import Mathlib.Data.List.Sort
import Mathlib.Data.List.TakeWhile

/-! Property tables as maps from names to properties that keep the order of insertion. -/

namespace WkcBrowser.Runtime

open Lib PropertyMapHashTable

/-- A property as an object has it. -/
structure Property (κ C : Type) where
  name : κ
  offset : Nat
  attributes : Nat
  specificValue : Option C
deriving DecidableEq

/-- What is done to a table. Whether a dictionary is uncacheable decides what flattening does. -/
inductive Operation (κ C : Type) where
  | put (rep : κ) (attributes : Nat) (specificValue : Option C)
  | remove (rep : κ)
  | copy
  | despecifyFunction (rep : κ)
  | despecifyAllFunctions
  | rehash
  | flatten (isUncacheableDictionary : Bool)

section
variable {κ C : Type}

def propertyOf (x : κ × PropertyMapEntry κ C) : Property κ C :=
  { name := x.1, offset := x.2.offset, attributes := x.2.attributes, specificValue := x.2.specificValue }

/-- Only absent names are put. -/
def Admits (properties : List (Property κ C)) : Operation κ C → Prop
  | .put rep _ _ => ∀ p ∈ properties, p.name ≠ rep
  | _ => True

variable (computedHash : κ → UInt32)

/-- The invariant: the index table leads to the entries, whose indices are in the order of the properties
and whose offsets are, with the free ones, those of the storage. -/
structure Sound (t : PropertyMapHashTable κ C) (properties : List (Property κ C)) : Prop where
  indexed : Indexed computedHash t
  roomy : (t.keyCount + t.deletedSentinelCount) * 2 < t.size
  ordered : ∃ order : List (κ × PropertyMapEntry κ C), order.Perm t.keyed ∧
    order.Pairwise (fun x y => x.2.index < y.2.index) ∧ order.map propertyOf = properties
  last : ∀ x ∈ t.keyed, x.2.index ≤ t.lastIndexUsed
  small : t.lastIndexUsed < 2 ^ 32
  offsets : ((t.keyed.map fun x => x.2.offset) ++ t.deletedOffsets).Perm
    (List.range' t.anonymousSlotCount (t.keyCount + t.deletedOffsets.length))

variable {computedHash} {t : PropertyMapHashTable κ C} {properties : List (Property κ C)}

theorem Sound.mem_iff (sound : Sound computedHash t properties) (p : Property κ C) :
    p ∈ properties ↔ ∃ entry, (p.name, entry) ∈ t.keyed ∧ propertyOf (p.name, entry) = p := by
  obtain ⟨order, perm, -, rfl⟩ := sound.ordered
  rw [List.mem_map]
  constructor
  · rintro ⟨x, member, rfl⟩
    exact ⟨x.2, perm.mem_iff.mp member, rfl⟩
  · rintro ⟨entry, member, same⟩
    exact ⟨_, perm.mem_iff.mpr member, same⟩

theorem Sound.absent (sound : Sound computedHash t properties) {rep : κ}
    (absent : ∀ p ∈ properties, p.name ≠ rep) : ∀ x ∈ t.keyed, x.1 ≠ rep := by
  intro x member
  exact absent (propertyOf x) ((sound.mem_iff (propertyOf x)).mpr ⟨x.2, member, rfl⟩)

theorem lastIndex_of {t' : PropertyMapHashTable κ C} {n : Nat} (below : n < 2 ^ 32)
    (indices : ∀ x ∈ t'.keyed, x.2.index ≤ n) (either : t'.lastIndexUsed = n ∨ IsLastIndex t'.keyed t'.lastIndexUsed) :
    (∀ x ∈ t'.keyed, x.2.index ≤ t'.lastIndexUsed) ∧ t'.lastIndexUsed < 2 ^ 32 := by
  rcases either with same | ⟨all, zero | ⟨x, member, same⟩⟩
  · rw [same]
    exact ⟨indices, below⟩
  · refine ⟨all, ?_⟩
    rw [zero]
    exact Nat.two_pow_pos 32
  · refine ⟨all, ?_⟩
    rw [← same]
    exact Nat.lt_of_le_of_lt (indices x member) below

theorem sound_create (m anonymousSlots : Nat) : Sound computedHash
    ((createPropertyMapHashTable (newTableSize * 2 ^ m) : PropertyMapHashTable κ C).addAnonymousSlots
      anonymousSlots) [] := by
  have size : newTableSize * 2 ^ m = 2 ^ (m + 3 + 1) := by
    rw [newTableSize, Nat.pow_add, Nat.pow_add]
    omega
  have keyed : ((createPropertyMapHashTable (newTableSize * 2 ^ m) : PropertyMapHashTable κ C).addAnonymousSlots
      anonymousSlots).keyed = [] := keyed_create _
  have positive : 0 < newTableSize * 2 ^ m := Nat.mul_pos (by decide) (Nat.two_pow_pos m)
  constructor
  · rw [size]
    exact (indexed_create (m + 3)).congr rfl
  · exact positive
  · exact ⟨[], by rw [keyed], List.Pairwise.nil, rfl⟩
  · rw [keyed]
    intro x absent
    cases absent
  · exact Nat.two_pow_pos 32
  · rw [keyed]
    exact List.Perm.refl []

theorem Sound.put (sound : Sound computedHash t properties) {rep : κ}
    (absent : ∀ p ∈ properties, p.name ≠ rep) (attributes : Nat) (specificValue : Option C) :
    ∃ t', t.put computedHash rep attributes specificValue = some (t.nextOffset.1, t') ∧
      ((t.lastIndexUsed + 1 < 2 ^ 32 ∨ t.keyCount = 0) → Sound computedHash t'
        (properties ++ [{ name := rep, offset := t.nextOffset.1, attributes, specificValue }])) := by
  obtain ⟨t', result, indexed, roomy, perm, free, slots, last⟩ :=
    sound.indexed.put sound.roomy (sound.absent absent) attributes specificValue
  refine ⟨t', result, fun noWrap => ?_⟩
  have below : ∀ x ∈ t.keyed, x.2.index < (t.lastIndexUsed + 1) % 2 ^ 32 := by
    intro x member
    rcases noWrap with noWrap | empty
    · rw [Nat.mod_eq_of_lt noWrap]
      exact Nat.lt_succ_of_le (sound.last x member)
    · rw [← sound.indexed.count, List.length_eq_zero_iff] at empty
      rw [empty] at member
      cases member
  have indices : ∀ x ∈ t'.keyed, x.2.index ≤ (t.lastIndexUsed + 1) % 2 ^ 32 := by
    intro x member
    rcases List.mem_cons.mp (perm.mem_iff.mp member) with rfl | member
    · exact Nat.le_refl _
    · exact Nat.le_of_lt (below x member)
  obtain ⟨last', small'⟩ := lastIndex_of (Nat.mod_lt _ (Nat.two_pow_pos 32)) indices last
  have count : t'.keyCount = t.keyCount + 1 := by
    rw [← indexed.count, perm.length_eq, List.length_cons, sound.indexed.count]
  refine ⟨indexed, roomy, ?_, last', small', ?_⟩
  · obtain ⟨order, permOrder, sorted, rfl⟩ := sound.ordered
    refine ⟨order ++ [(rep, ⟨some rep, t.nextOffset.1, attributes, specificValue,
      (t.lastIndexUsed + 1) % 2 ^ 32⟩)], ?_, ?_, ?_⟩
    · exact ((List.perm_append_singleton _ order).trans (permOrder.cons _)).trans perm.symm
    · rw [List.pairwise_append]
      refine ⟨sorted, List.pairwise_singleton _ _, ?_⟩
      intro x member y isNew
      obtain rfl := List.mem_singleton.mp isNew
      exact below x (permOrder.mem_iff.mp member)
    · rw [List.map_append]
      rfl
  · have old := sound.offsets
    have permOffsets := perm.map fun x => x.2.offset
    rw [List.map_cons] at permOffsets
    refine (permOffsets.append_right t'.deletedOffsets).trans ?_
    rw [free, slots, count]
    unfold nextOffset at *
    cases deleted : t.deletedOffsets with
    | nil =>
      rw [deleted] at old
      rw [List.append_nil, List.length_nil, Nat.add_zero] at *
      rw [List.range'_concat, Nat.one_mul]
      refine (List.Perm.cons _ old).trans ?_
      rw [Nat.add_comm t.anonymousSlotCount]
      exact (List.perm_append_singleton _ _).symm
    | cons offset rest =>
      rw [deleted] at old
      rw [List.length_cons] at old
      have length : t.keyCount + 1 + rest.length = t.keyCount + (rest.length + 1) := by omega
      rw [length]
      exact List.perm_middle.symm.trans old

/-- The entries are changed, but neither their keys nor their indices nor their offsets. -/
theorem Sound.mapEntries (sound : Sound computedHash t properties)
    {f : PropertyMapEntry κ C → PropertyMapEntry κ C} (keys : ∀ entry, (f entry).key = entry.key)
    (kept : ∀ entry, (f entry).index = entry.index ∧ (f entry).offset = entry.offset)
    {g : Property κ C → Property κ C}
    (changed : ∀ x ∈ t.keyed, propertyOf (x.1, f x.2) = g (propertyOf x)) :
    Sound computedHash { t with entries := t.entries.map f } (properties.map g) := by
  have mapped : Indexed computedHash { t with entries := t.entries.map f } ∧
      keyed { t with entries := t.entries.map f } = t.keyed.map fun x => (x.1, f x.2) :=
    sound.indexed.mapEntries keys rfl
  obtain ⟨indexed, keyed⟩ := mapped
  refine ⟨indexed, sound.roomy, ?_, ?_, sound.small, ?_⟩
  · obtain ⟨order, perm, sorted, rfl⟩ := sound.ordered
    refine ⟨order.map fun x => (x.1, f x.2), ?_, ?_, ?_⟩
    · rw [keyed]
      exact perm.map _
    · rw [List.pairwise_map]
      refine sorted.imp fun {x y} less => ?_
      rw [(kept x.2).1, (kept y.2).1]
      exact less
    · rw [List.map_map, List.map_map]
      apply List.map_congr_left
      intro x member
      exact changed x (perm.mem_iff.mp member)
  · rw [keyed]
    intro y listed
    obtain ⟨x, member, rfl⟩ := List.mem_map.mp listed
    rw [(kept x.2).1]
    exact sound.last x member
  · have offsets : (t.keyed.map fun x => (x.1, f x.2)).map (fun x => x.2.offset) =
        t.keyed.map fun x => x.2.offset := by
      rw [List.map_map]
      apply List.map_congr_left
      intro x _
      exact (kept x.2).2
    rw [keyed, offsets]
    exact sound.offsets

theorem Sound.offset_bounds (sound : Sound computedHash t properties) :
    (properties.map Property.offset).Nodup ∧
      ∀ p ∈ properties, t.anonymousSlotCount ≤ p.offset ∧ p.offset < t.propertyStorageSize := by
  obtain ⟨order, perm, -, rfl⟩ := sound.ordered
  have all : ((order.map fun x => x.2.offset) ++ t.deletedOffsets).Perm
      (List.range' t.anonymousSlotCount (t.keyCount + t.deletedOffsets.length)) :=
    ((perm.map fun x => x.2.offset).append_right _).trans sound.offsets
  have offsets : (order.map propertyOf).map Property.offset = order.map fun x => x.2.offset := by
    rw [List.map_map]
    rfl
  constructor
  · have unique := all.nodup_iff.mpr List.nodup_range'
    rw [List.nodup_append] at unique
    rw [offsets]
    exact unique.1
  · intro p member
    have listed : p.offset ∈ (order.map fun x => x.2.offset) ++ t.deletedOffsets := by
      rw [← offsets]
      exact List.mem_append_left _ (List.mem_map_of_mem member)
    rw [all.mem_iff, List.mem_range'_1] at listed
    unfold propertyStorageSize
    omega

theorem Sound.rehash (sound : Sound computedHash t properties) :
    ∃ t', t.rehashPropertyMapHashTable computedHash t.size = some t' ∧ Sound computedHash t' properties := by
  obtain ⟨m, size⟩ := sound.indexed.power
  have roomy := sound.roomy
  obtain ⟨t', rehashed, indexed, perm, noSentinel, size', slots, free, isLast⟩ :=
    sound.indexed.rehash (m := m) (by omega)
  have count : t'.keyCount = t.keyCount := by
    rw [← indexed.count, perm.length_eq, sound.indexed.count]
  obtain ⟨last, small⟩ := lastIndex_of sound.small
    (fun x member => sound.last x (perm.mem_iff.mp member)) (Or.inr isLast)
  refine ⟨t', by rw [size, rehashed], indexed, ?_, ?_, last, small, ?_⟩
  · rw [noSentinel, size', count]
    omega
  · obtain ⟨order, permOrder, sorted, same⟩ := sound.ordered
    exact ⟨order, permOrder.trans perm.symm, sorted, same⟩
  · rw [free, slots, count]
    exact ((perm.map _).append_right _).trans sound.offsets

end

section
variable {κ C : Type} [DecidableEq κ] (computedHash : κ → UInt32)

/-- The operation on the table, and on the properties in the order of their insertion. -/
def perform (t : PropertyMapHashTable κ C) (properties : List (Property κ C)) :
    Operation κ C → Option (PropertyMapHashTable κ C × List (Property κ C))
  | .put rep attributes specificValue => do
    let (offset, t') ← t.put computedHash rep attributes specificValue
    pure (t', properties ++ [{ name := rep, offset, attributes, specificValue }])
  | .remove rep => do
    let (_, t') ← t.remove computedHash rep
    pure (t', properties.filter fun p => p.name ≠ rep)
  | .copy => pure (t.copyPropertyTable, properties)
  | .despecifyFunction rep => do
    let (_, t') ← t.despecifyFunction computedHash rep
    pure (t', properties.map fun p => if p.name = rep then { p with specificValue := none } else p)
  | .despecifyAllFunctions =>
    pure (t.despecifyAllFunctions, properties.map fun p => { p with specificValue := none })
  | .rehash => do
    let t' ← t.rehashPropertyMapHashTable computedHash t.size
    pure (t', properties)
  | .flatten isUncacheableDictionary =>
    pure ((t.flattenDictionaryStructure isUncacheableDictionary fun offset => offset).1,
      if isUncacheableDictionary then
        properties.mapIdx fun i p => { p with offset := t.anonymousSlotCount + i }
      else properties)

/-- The tables that come to be, when a name is put only where it may be. -/
inductive Reachable (mayPut : PropertyMapHashTable κ C → Prop) :
    PropertyMapHashTable κ C → List (Property κ C) → Prop where
  | create (m anonymousSlots : Nat) :
      Reachable mayPut ((createPropertyMapHashTable (newTableSize * 2 ^ m)).addAnonymousSlots anonymousSlots) []
  | step {t t' : PropertyMapHashTable κ C} {properties properties' : List (Property κ C)}
      (op : Operation κ C) (before : Reachable mayPut t properties) (admitted : Admits properties op)
      (allowed : ∀ rep attributes specificValue, op = .put rep attributes specificValue → mayPut t)
      (performed : perform computedHash t properties op = some (t', properties')) :
      Reachable mayPut t' properties'

/-- What the table answers is what the properties in their order say. -/
structure Agrees (t : PropertyMapHashTable κ C) (properties : List (Property κ C)) : Prop where
  get : ∀ rep, t.get computedHash rep = some ((properties.find? fun p => p.name = rep).map fun p =>
    (p.offset, p.attributes, p.specificValue))
  removed : ∀ rep, (t.remove computedHash rep).map Prod.fst =
    some ((properties.find? fun p => p.name = rep).map Property.offset)
  distinct : (properties.map Property.offset).Nodup
  within : ∀ p ∈ properties, t.anonymousSlotCount ≤ p.offset ∧ p.offset < t.propertyStorageSize
  sorted : t.sortedPropertyEntries.map propertyOf = properties
  enumerated : t.getEnumerablePropertyNames =
    (properties.filter fun p => p.attributes &&& DontEnum = 0).map Property.name
  ends : ∀ op, Admits properties op → (perform computedHash t properties op).isSome = true

variable {computedHash} {t : PropertyMapHashTable κ C} {properties : List (Property κ C)}

/-- A name is looked up in the list. -/
theorem Sound.find (sound : Sound computedHash t properties) (rep : κ) :
    (properties.find? fun p => p.name = rep) = none ∧ (∀ x ∈ t.keyed, x.1 ≠ rep) ∨
      ∃ entry, (rep, entry) ∈ t.keyed ∧
        (properties.find? fun p => p.name = rep) = some (propertyOf (rep, entry)) := by
  cases found : properties.find? fun p => p.name = rep with
  | none =>
    rw [List.find?_eq_none] at found
    left
    refine ⟨rfl, sound.absent fun p member same => ?_⟩
    exact found p member (decide_eq_true same)
  | some p =>
    right
    have named : p.name = rep := by simpa using List.find?_some found
    obtain ⟨entry, listed, same⟩ := (sound.mem_iff p).mp (List.mem_of_find?_eq_some found)
    subst named
    exact ⟨entry, listed, by rw [same]⟩

/-! What each operation keeps. -/

theorem Sound.remove (sound : Sound computedHash t properties) (rep : κ) :
    ∃ t', t.remove computedHash rep =
        some ((properties.find? fun p => p.name = rep).map Property.offset, t') ∧
      Sound computedHash t' (properties.filter fun p => p.name ≠ rep) := by
  rcases sound.find rep with ⟨notFound, absent⟩ | ⟨entry, listed, found⟩
  · refine ⟨t, ?_, ?_⟩
    · rw [notFound, sound.indexed.remove_absent absent]
      rfl
    · have all : (properties.filter fun p => p.name ≠ rep) = properties := by
        rw [List.filter_eq_self]
        intro p member
        obtain ⟨entry, listed, -⟩ := (sound.mem_iff p).mp member
        exact decide_eq_true (absent _ listed)
      rw [all]
      exact sound
  · obtain ⟨t', removed, indexed, roomy, perm, free, slots, last⟩ := sound.indexed.remove sound.roomy listed
    have others : ∀ x ∈ t'.keyed, x.1 ≠ rep := by
      intro x member same
      have unique := sound.indexed.unique
      rw [(perm.map Prod.fst).nodup_iff, List.map_cons, List.nodup_cons] at unique
      exact unique.1 (List.mem_map.mpr ⟨x, member, same⟩)
    have indices : ∀ x ∈ t'.keyed, x.2.index ≤ t.lastIndexUsed := fun x member =>
      sound.last x (perm.mem_iff.mpr (List.mem_cons_of_mem _ member))
    obtain ⟨last', small'⟩ := lastIndex_of sound.small indices last
    have count : t.keyCount = t'.keyCount + 1 := by
      rw [← sound.indexed.count, perm.length_eq, List.length_cons, indexed.count]
    refine ⟨t', ?_, indexed, roomy, ?_, last', small', ?_⟩
    · rw [found]
      exact removed
    · obtain ⟨order, permOrder, sorted, rfl⟩ := sound.ordered
      refine ⟨order.filter fun x => x.1 ≠ rep, ?_, sorted.filter _, ?_⟩
      · have filtered := (permOrder.trans perm).filter fun x => decide (x.1 ≠ rep)
        have all : (t'.keyed.filter fun x => decide (x.1 ≠ rep)) = t'.keyed := by
          rw [List.filter_eq_self]
          intro x member
          exact decide_eq_true (others x member)
        rw [List.filter_cons_of_neg (by simp), all] at filtered
        exact filtered
      · rw [List.filter_map]
        rfl
    · have old := sound.offsets
      rw [count] at old
      have length : t'.keyCount + t'.deletedOffsets.length =
          t'.keyCount + 1 + t.deletedOffsets.length := by
        rw [free, List.length_cons]
        omega
      rw [length, slots, free]
      refine List.perm_middle.trans (List.Perm.trans ?_ old)
      exact ((perm.map fun x => x.2.offset).symm).append_right t.deletedOffsets

end

section
variable {κ C : Type} {l order : List (κ × PropertyMapEntry κ C)}

/-- Lists of the same entries, both in the order of their indices. -/
theorem eq_of_sorted {l' : List (κ × PropertyMapEntry κ C)} (perm : l'.Perm order)
    (sorted : order.Pairwise fun x y => x.2.index < y.2.index)
    (sorted' : l'.Pairwise fun x y => x.2.index ≤ y.2.index) : l' = order := by
  have single : ∀ x ∈ order, ∀ y ∈ order, x.2.index = y.2.index → x = y := by
    have unique : (order.map fun x => x.2.index).Nodup := by
      unfold List.Nodup
      rw [List.pairwise_map]
      exact sorted.imp Nat.ne_of_lt
    intro x member y member' same
    exact List.inj_on_of_nodup_map unique member member' same
  refine List.Perm.eq_of_pairwise ?_ sorted' (sorted.imp Nat.le_of_lt) perm
  intro x y member member' le le'
  exact single x (perm.mem_iff.mp member) y member' (Nat.le_antisymm le le')

/-- Indices that grow are not below their places. -/
theorem le_index (sorted : l.Pairwise fun x y => x.2.index < y.2.index)
    {i : Nat} (inside : i < l.length) : i ≤ l[i].2.index := by
  induction i with
  | zero => exact Nat.zero_le _
  | succ i ih =>
    have before := ih (Nat.lt_of_succ_lt inside)
    have less := List.pairwise_iff_getElem.mp sorted i (i + 1) (Nat.lt_of_succ_lt inside) inside
      (Nat.lt_succ_self i)
    omega

/-- Sorted by their indices the entries are in the order of insertion. -/
theorem mergeSort_eq (perm : order.Perm l) (sorted : order.Pairwise fun x y => x.2.index < y.2.index) :
    (l.mergeSort fun a b => a.2.index ≤ b.2.index) = order := by
  refine eq_of_sorted ((List.mergeSort_perm _ _).trans perm.symm) sorted ?_
  have pairwise : (l.mergeSort fun a b => a.2.index ≤ b.2.index).Pairwise
      fun a b => decide (a.2.index ≤ b.2.index) = true := by
    apply List.pairwise_mergeSort
    · intro a b c le le'
      exact decide_eq_true (Nat.le_trans (of_decide_eq_true le) (of_decide_eq_true le'))
    · intro a b
      rw [Bool.or_eq_true, decide_eq_true_iff, decide_eq_true_iff]
      exact Nat.le_total _ _
  exact pairwise.imp of_decide_eq_true

/-- One entry more in a list that is sorted. -/
theorem insertByIndex_spec (value : κ × PropertyMapEntry κ C)
    (sorted : l.Pairwise fun x y => x.2.index ≤ y.2.index) :
    (insertByIndex l value).Perm (value :: l) ∧
      (insertByIndex l value).Pairwise fun x y => x.2.index ≤ y.2.index := by
  let above : κ × PropertyMapEntry κ C → Bool := fun entry => entry.2.index > value.2.index
  have split : l = (l.reverse.dropWhile above).reverse ++ (l.reverse.takeWhile above).reverse := by
    rw [← List.reverse_append, List.takeWhile_append_dropWhile, List.reverse_reverse]
  have greater : ∀ x ∈ (l.reverse.takeWhile above).reverse, value.2.index ≤ x.2.index := by
    intro x member
    have isAbove := List.mem_takeWhile_imp (List.mem_reverse.mp member)
    exact Nat.le_of_lt (of_decide_eq_true isAbove)
  have falling : (l.reverse.dropWhile above).Pairwise fun x y => y.2.index ≤ x.2.index :=
    (List.pairwise_reverse.mpr sorted).sublist (List.dropWhile_sublist above)
  have below : ∀ x ∈ (l.reverse.dropWhile above).reverse, x.2.index ≤ value.2.index := by
    intro x member
    rw [List.mem_reverse] at member
    have stops := List.head?_dropWhile_not above l.reverse
    cases rest : l.reverse.dropWhile above with
    | nil =>
      rw [rest] at member
      cases member
    | cons head rest' =>
      rw [rest] at member falling stops
      have notAbove : head.2.index ≤ value.2.index := by
        have notAbove : above head = false := stops
        exact Nat.le_of_not_lt (of_decide_eq_false notAbove)
      rcases List.mem_cons.mp member with rfl | member
      · exact notAbove
      · exact Nat.le_trans ((List.pairwise_cons.mp falling).1 x member) notAbove
  have inserted : insertByIndex l value =
      (l.reverse.dropWhile above).reverse ++ value :: (l.reverse.takeWhile above).reverse := rfl
  rw [inserted]
  constructor
  · exact List.perm_middle.trans ((List.Perm.of_eq split.symm).cons value)
  · rw [split, List.pairwise_append] at sorted
    rw [List.pairwise_append, List.pairwise_cons]
    refine ⟨sorted.1, ⟨greater, sorted.2.1⟩, ?_⟩
    intro x member y member'
    rcases List.mem_cons.mp member' with rfl | member'
    · exact below x member
    · exact sorted.2.2 x member y member'

/-- The insertion sort of short lists comes to the same. -/
theorem foldl_insertByIndex_eq (perm : order.Perm l) (sorted : order.Pairwise fun x y => x.2.index < y.2.index) :
    l.foldl insertByIndex [] = order := by
  have run (l sorted' : List (κ × PropertyMapEntry κ C))
      (start : sorted'.Pairwise fun x y => x.2.index ≤ y.2.index) :
      (l.foldl insertByIndex sorted').Perm (sorted' ++ l) ∧
        (l.foldl insertByIndex sorted').Pairwise fun x y => x.2.index ≤ y.2.index := by
    induction l generalizing sorted' with
    | nil => exact ⟨by rw [List.append_nil, List.foldl_nil], start⟩
    | cons value l ih =>
      obtain ⟨perm, pairwise⟩ := insertByIndex_spec value start
      obtain ⟨perm', pairwise'⟩ := ih _ pairwise
      exact ⟨perm'.trans ((perm.append_right l).trans List.perm_middle.symm), pairwise'⟩
  obtain ⟨perm', pairwise⟩ := run l [] List.Pairwise.nil
  exact eq_of_sorted (perm'.trans perm.symm) sorted pairwise

end

section
variable {κ C : Type} [DecidableEq κ] {computedHash : κ → UInt32} {t : PropertyMapHashTable κ C}
variable {properties : List (Property κ C)}

theorem Sound.despecifyFunction (sound : Sound computedHash t properties) (rep : κ) :
    ∃ found t', t.despecifyFunction computedHash rep = some (found, t') ∧ Sound computedHash t'
      (properties.map fun p => if p.name = rep then { p with specificValue := none } else p) := by
  rcases sound.find rep with ⟨-, absent⟩ | ⟨entry, listed, -⟩
  · refine ⟨false, t, sound.indexed.despecifyFunction_absent absent, ?_⟩
    have all : (properties.map fun p => if p.name = rep then { p with specificValue := none } else p) =
        properties := by
      have same : (properties.map fun p => if p.name = rep then { p with specificValue := none } else p) =
          properties.map id := by
        apply List.map_congr_left
        intro p member
        obtain ⟨entry, listed, -⟩ := (sound.mem_iff p).mp member
        exact if_neg (absent _ listed)
      rw [same, List.map_id]
    rw [all]
    exact sound
  · refine ⟨true, _, sound.indexed.despecifyFunction_present listed, ?_⟩
    apply sound.mapEntries
    · intro entry
      unfold unspecified
      split_ifs
      · rfl
      · rfl
    · intro entry
      unfold unspecified
      split_ifs
      · exact ⟨rfl, rfl⟩
      · exact ⟨rfl, rfl⟩
    · intro x member
      have isKey := keys_of_mem member
      unfold unspecified
      by_cases same : x.1 = rep
      · have isKey' : x.2.key = some rep := by rw [isKey, same]
        rw [if_pos isKey']
        exact (if_pos same).symm
      · have isOther : ¬x.2.key = some rep := by
          rw [isKey]
          exact fun equal => same (Option.some.inj equal)
        rw [if_neg isOther]
        exact (if_neg same).symm

/-- The place of a key in a list of different keys. -/
theorem placeOf_getElem {l : List (κ × PropertyMapEntry κ C)} (unique : (l.map Prod.fst).Nodup) {i : Nat}
    (inside : i < l.length) : placeOf l l[i].1 = i := by
  unfold placeOf
  rw [List.findIdx_eq inside]
  refine ⟨decide_eq_true rfl, ?_⟩
  intro j less
  apply decide_eq_false
  unfold List.Nodup at unique
  rw [List.pairwise_map, List.pairwise_iff_getElem] at unique
  exact unique j i (Nat.lt_trans less inside) inside less

/-- An entry with the offset and the index that `flattenDictionaryStructure` gives it. -/
def numberBy (anonymousSlotCount : Nat) (order : List (κ × PropertyMapEntry κ C))
    (entry : PropertyMapEntry κ C) : PropertyMapEntry κ C :=
  match entry.key with
  | none => entry
  | some rep =>
    { entry with offset := anonymousSlotCount + placeOf order rep, index := placeOf order rep }

/-- Flattening numbers the offsets in the order of insertion. -/
theorem Sound.flatten (sound : Sound computedHash t properties) (isUncacheableDictionary : Bool) :
    Sound computedHash (t.flattenDictionaryStructure isUncacheableDictionary fun offset => offset).1
      (if isUncacheableDictionary then
        properties.mapIdx fun i p => { p with offset := t.anonymousSlotCount + i }
      else properties) := by
  cases isUncacheableDictionary with
  | false => exact sound
  | true =>
    obtain ⟨order, perm, sorted, rfl⟩ := sound.ordered
    have sorted_eq : t.sortedPropertyEntries = order := by
      unfold sortedPropertyEntries
      rw [sound.indexed.usedEntries_eq, mergeSort_eq perm sorted]
    let f := numberBy t.anonymousSlotCount order
    let t' : PropertyMapHashTable κ C := { t with entries := t.entries.map f, deletedOffsets := [] }
    have flattened : (t.flattenDictionaryStructure true fun offset => offset).1 = t' := by
      unfold flattenDictionaryStructure
      rw [sorted_eq]
      rfl
    have keys (entry : PropertyMapEntry κ C) : (f entry).key = entry.key := by
      obtain ⟨key, _, _, _, _⟩ := entry
      cases key with
      | none => rfl
      | some rep => rfl
    have mapped : Indexed computedHash t' ∧ t'.keyed = t.keyed.map fun x => (x.1, f x.2) :=
      sound.indexed.mapEntries keys rfl
    obtain ⟨indexed, keyed⟩ := mapped
    have unique : (order.map Prod.fst).Nodup := (perm.map Prod.fst).nodup_iff.mpr sound.indexed.unique
    -- the entries in their order, numbered
    let number (i : Nat) (x : κ × PropertyMapEntry κ C) : κ × PropertyMapEntry κ C :=
      (x.1, { x.2 with offset := t.anonymousSlotCount + i, index := i })
    have numbered : (order.map fun x => (x.1, f x.2)) = order.mapIdx number := by
      apply List.ext_getElem
      · rw [List.length_map, List.length_mapIdx]
      · intro i inside _
        rw [List.length_map] at inside
        have isKey := keys_of_mem (perm.mem_iff.mp (List.getElem_mem inside))
        rw [List.getElem_map, List.getElem_mapIdx]
        show (order[i].1, numberBy t.anonymousSlotCount order order[i].2) = _
        rw [numberBy, isKey]
        dsimp only
        rw [placeOf_getElem unique inside, ← isKey]
    have perm' : (order.mapIdx number).Perm t'.keyed := by
      rw [← numbered, keyed]
      exact perm.map _
    have length : order.length = t.keyCount := by rw [perm.length_eq, sound.indexed.count]
    rw [if_pos rfl, flattened]
    refine ⟨indexed, sound.roomy, ⟨_, perm', ?_, ?_⟩, ?_, sound.small, ?_⟩
    · rw [List.pairwise_iff_getElem]
      intro i j inside inside' less
      rw [List.getElem_mapIdx, List.getElem_mapIdx]
      exact less
    · apply List.ext_getElem
      · simp only [List.length_map, List.length_mapIdx]
      · intro i inside _
        simp only [List.getElem_map, List.getElem_mapIdx]
        rfl
    · intro x member
      obtain ⟨i, inside, rfl⟩ := List.getElem_of_mem (perm'.mem_iff.mpr member)
      rw [List.length_mapIdx] at inside
      have above := le_index sorted inside
      have last := sound.last _ (perm.mem_iff.mp (List.getElem_mem inside))
      rw [List.getElem_mapIdx]
      exact Nat.le_trans above last
    · have offsets : (order.mapIdx number).map (fun x => x.2.offset) =
          List.range' t.anonymousSlotCount order.length := by
        apply List.ext_getElem
        · simp only [List.length_map, List.length_mapIdx, List.length_range']
        · intro i inside _
          simp only [List.getElem_map, List.getElem_mapIdx, List.getElem_range', Nat.one_mul, number]
      have permOffsets : (t'.keyed.map fun x => x.2.offset).Perm ((order.mapIdx number).map fun x => x.2.offset) :=
        (perm'.map _).symm
      rw [offsets, length] at permOffsets
      have nothing : t'.deletedOffsets = [] := rfl
      rw [nothing, List.append_nil, List.length_nil, Nat.add_zero]
      exact permOffsets

/-- An operation keeps the invariant, unless the last index wraps. -/
theorem Sound.perform (sound : Sound computedHash t properties) (op : Operation κ C)
    (admitted : Admits properties op) :
    ∃ t' properties', perform computedHash t properties op = some (t', properties') ∧
      ((∀ rep attributes specificValue, op = .put rep attributes specificValue →
        t.lastIndexUsed + 1 < 2 ^ 32 ∨ t.keyCount = 0) → Sound computedHash t' properties') := by
  cases op with
  | put rep attributes specificValue =>
    obtain ⟨t', result, kept⟩ := sound.put admitted attributes specificValue
    refine ⟨t', _, ?_, fun noWrap => kept (noWrap rep attributes specificValue rfl)⟩
    rw [Runtime.perform, result]
    rfl
  | remove rep =>
    obtain ⟨t', result, kept⟩ := sound.remove rep
    refine ⟨t', _, ?_, fun _ => kept⟩
    rw [Runtime.perform, result]
    rfl
  | copy => exact ⟨t, properties, rfl, fun _ => sound⟩
  | despecifyFunction rep =>
    obtain ⟨found, t', result, kept⟩ := sound.despecifyFunction rep
    refine ⟨t', _, ?_, fun _ => kept⟩
    rw [Runtime.perform, result]
    rfl
  | despecifyAllFunctions =>
    refine ⟨_, properties.map fun p => { p with specificValue := none }, rfl, fun _ => ?_⟩
    exact sound.mapEntries (f := fun entry => { entry with specificValue := none })
      (g := fun p => { p with specificValue := none }) (fun _ => rfl) (fun _ => ⟨rfl, rfl⟩) fun _ _ => rfl
  | rehash =>
    obtain ⟨t', result, kept⟩ := sound.rehash
    refine ⟨t', properties, ?_, fun _ => kept⟩
    rw [Runtime.perform, result]
    rfl
  | flatten isUncacheableDictionary => exact ⟨_, _, rfl, fun _ => sound.flatten isUncacheableDictionary⟩

theorem Reachable.sound (reachable : Reachable computedHash
    (fun t => t.lastIndexUsed + 1 < 2 ^ 32 ∨ t.keyCount = 0) t properties) :
    Sound computedHash t properties := by
  induction reachable with
  | create m anonymousSlots => exact sound_create m anonymousSlots
  | step op before admitted allowed performed ih =>
    obtain ⟨t', properties', result, kept⟩ := ih.perform op admitted
    rw [result] at performed
    obtain ⟨rfl, rfl⟩ := Prod.mk.inj (Option.some.inj performed)
    exact kept allowed

/-- What is sound answers as the properties say. -/
theorem Sound.agrees (sound : Sound computedHash t properties) : Agrees computedHash t properties := by
  constructor
  · intro rep
    rcases sound.find rep with ⟨notFound, absent⟩ | ⟨entry, listed, found⟩
    · rw [notFound, sound.indexed.get_absent absent]
      rfl
    · rw [found, sound.indexed.get_present listed]
      rfl
  · intro rep
    obtain ⟨t', removed, -⟩ := sound.remove rep
    rw [removed]
    rfl
  · exact sound.offset_bounds.1
  · exact sound.offset_bounds.2
  · obtain ⟨order, perm, sorted, rfl⟩ := sound.ordered
    unfold sortedPropertyEntries
    rw [sound.indexed.usedEntries_eq, mergeSort_eq perm sorted]
  · obtain ⟨order, perm, sorted, rfl⟩ := sound.ordered
    have permEnumerable := perm.filter fun entry => entry.2.attributes &&& DontEnum = 0
    have sortedEnumerable := sorted.filter fun entry => entry.2.attributes &&& DontEnum = 0
    have names : ((order.map propertyOf).filter fun p => p.attributes &&& DontEnum = 0).map Property.name =
        (order.filter fun entry => entry.2.attributes &&& DontEnum = 0).map Prod.fst := by
      rw [List.filter_map, List.map_map]
      rfl
    unfold getEnumerablePropertyNames
    dsimp only
    rw [sound.indexed.usedEntries_eq, foldl_insertByIndex_eq permEnumerable sortedEnumerable,
      mergeSort_eq permEnumerable sortedEnumerable, names, ite_self]
  · intro op admitted
    obtain ⟨t', properties', result, -⟩ := sound.perform op admitted
    rw [result]
    rfl

/-- In every table that comes to be while the last index does not wrap. -/
theorem reachable_agrees (computedHash : κ → UInt32) (t : PropertyMapHashTable κ C)
    (properties : List (Property κ C)) (reachable : Reachable computedHash
      (fun t => t.lastIndexUsed + 1 < 2 ^ 32 ∨ t.keyCount = 0) t properties) :
    Agrees computedHash t properties :=
  reachable.sound.agrees

end

/-! A table in which the last index wraps: beside one name another is put and removed again and again, so
that the table always has a place for it and is never rehashed. -/

def twoNames (name : Bool) : UInt32 := if name then 1 else 0

/-- The table with the name that stays, and with the other one or where it was. -/
def spinning (present : Bool) (last : Nat) : PropertyMapHashTable Bool Unit where
  sizeMask := 15
  size := 16
  keyCount := if present then 2 else 1
  deletedSentinelCount := if present then 0 else 1
  anonymousSlotCount := 0
  lastIndexUsed := last
  deletedOffsets := if present then [] else [1]
  entryIndices := [2, if present then 3 else 1, 0, 0, 0, 0, 0, 0, 0, 0, 0, 0, 0, 0, 0, 0]
  entries := [unusedEntry, ⟨some false, 0, 0, none, 1⟩,
    ⟨if present then some true else none, if present then 1 else 0, 0, none, last⟩] ++
    List.replicate 6 unusedEntry

theorem stride_twoNames : stride twoNames true = 24773 := by decide

theorem spinning_put (n : Nat) : (spinning false n).put twoNames true 0 none =
    some (1, spinning true ((n + 1) % 2 ^ 32)) := by
  simp [PropertyMapHashTable.put, vacancy, findPlace, entryIndexAt, spinning, twoNames, entryAt, emptyEntryIndex,
    deletedSentinelIndex, stride_twoNames, searchBack, unusedEntry]

theorem spinning_remove (n : Nat) :
    (spinning true n).remove twoNames true = some (some 1, spinning false n) := by
  simp [PropertyMapHashTable.remove, lookup, findEntry, entryIndexAt, spinning, twoNames, entryAt,
    emptyEntryIndex, deletedSentinelIndex]

def stays : Property Bool Unit := { name := false, offset := 0, attributes := 0, specificValue := none }

def comes : Property Bool Unit := { name := true, offset := 1, attributes := 0, specificValue := none }

theorem reachable_put {mayPut : PropertyMapHashTable Bool Unit → Prop} (n : Nat)
    (reachable : Reachable twoNames mayPut (spinning false n) [stays]) (allowed : mayPut (spinning false n)) :
    Reachable twoNames mayPut (spinning true ((n + 1) % 2 ^ 32)) [stays, comes] := by
  apply Reachable.step (.put true 0 none) reachable
  · intro p member
    obtain rfl := List.mem_singleton.mp member
    decide
  · intro _ _ _ _
    exact allowed
  · rw [perform, spinning_put]
    rfl

theorem reachable_remove {mayPut : PropertyMapHashTable Bool Unit → Prop} (n : Nat)
    (reachable : Reachable twoNames mayPut (spinning true n) [stays, comes]) :
    Reachable twoNames mayPut (spinning false n) [stays] := by
  apply Reachable.step (.remove true) reachable trivial
  · intro _ _ _ isPut
    cases isPut
  · rw [perform, spinning_remove]
    rfl

theorem reachable_first (mayPut : PropertyMapHashTable Bool Unit → Prop)
    (allowed : ∀ t : PropertyMapHashTable Bool Unit, t.lastIndexUsed ≤ 1 → mayPut t) :
    Reachable twoNames mayPut (spinning true 2) [stays, comes] := by
  have one : ∃ t, perform twoNames ((createPropertyMapHashTable (newTableSize * 2 ^ 0)).addAnonymousSlots 0) []
      (.put false 0 none) = some (t, [stays]) ∧ t.lastIndexUsed = 1 ∧
      perform twoNames t [stays] (.put true 0 none) = some (spinning true 2, [stays, comes]) :=
    ⟨{ spinning false 1 with
        deletedSentinelCount := 0
        deletedOffsets := []
        entryIndices := [2, 0, 0, 0, 0, 0, 0, 0, 0, 0, 0, 0, 0, 0, 0, 0]
        entries := [unusedEntry, ⟨some false, 0, 0, none, 1⟩] ++ List.replicate 7 unusedEntry },
      by decide, rfl, by decide⟩
  obtain ⟨t, first, last, second⟩ := one
  have start : Reachable twoNames mayPut t [stays] := by
    apply Reachable.step (.put false 0 none) (Reachable.create 0 0)
    · intro p absent
      cases absent
    · intro _ _ _ _
      exact allowed _ (by decide)
    · exact first
  apply Reachable.step (.put true 0 none) start
  · intro p member
    obtain rfl := List.mem_singleton.mp member
    decide
  · intro _ _ _ _
    exact allowed t (by rw [last])
  · exact second

theorem reachable_agrees_two : Agrees twoNames (spinning true 2) [stays, comes] :=
  reachable_agrees twoNames (spinning true 2) [stays, comes]
    (reachable_first _ fun t small => Or.inl (by omega))

/-- After the wrap the name that was put last comes first. -/
theorem not_reachable_agrees :
    ¬∀ (computedHash : Bool → UInt32) (t : PropertyMapHashTable Bool Unit) (properties : List (Property Bool Unit)),
      Reachable computedHash (fun _ => True) t properties → Agrees computedHash t properties := by
  intro all
  have spun (n : Nat) (small : n + 2 < 2 ^ 32) :
      Reachable twoNames (fun _ => True) (spinning false (n + 2)) [stays] := by
    induction n with
    | zero => exact reachable_remove 2 (reachable_first _ fun _ _ => trivial)
    | succ n ih =>
      have next := reachable_put (n + 2) (ih (by omega)) trivial
      rw [Nat.mod_eq_of_lt (by omega)] at next
      exact reachable_remove (n + 1 + 2) next
  have wrapped := reachable_put (2 ^ 32 - 1) (spun (2 ^ 32 - 3) (by decide)) trivial
  have enumerated := (all _ _ _ wrapped).enumerated
  revert enumerated
  decide

end WkcBrowser.Runtime
