import WkcBrowser.Runtime.PropertyProbes

/-! What `put`, `remove` and the other operations do to the entries of a property table. -/

namespace WkcBrowser.Runtime.PropertyMapHashTable

open Lib

section
variable {κ C : Type} {computedHash : κ → UInt32} {t : PropertyMapHashTable κ C}

/-- The other fields do not count. -/
theorem Indexed.congr (indexed : Indexed computedHash t) {t' : PropertyMapHashTable κ C}
    (same : (t'.sizeMask, t'.size, t'.keyCount, t'.deletedSentinelCount, t'.entryIndices, t'.entries) =
      (t.sizeMask, t.size, t.keyCount, t.deletedSentinelCount, t.entryIndices, t.entries)) :
    Indexed computedHash t' := by
  obtain ⟨_, _, _, _, _, _, _, _, _⟩ := t
  obtain ⟨_, _, _, _, _, _, _, _, _⟩ := t'
  simp only [Prod.mk.injEq] at same
  obtain ⟨rfl, rfl, rfl, rfl, rfl, rfl⟩ := same
  exact ⟨indexed.power, indexed.mask, indexed.slots, indexed.places, indexed.room, indexed.filled,
    indexed.sentinels, indexed.count, indexed.unique, indexed.within, indexed.reached, indexed.owned,
    indexed.single⟩

theorem keyed_create (size : Nat) : (createPropertyMapHashTable size : PropertyMapHashTable κ C).keyed = [] := by
  unfold keyed createPropertyMapHashTable
  rw [List.filterMap_eq_nil_iff]
  intro entry member
  rw [List.eq_of_mem_replicate member]
  rfl

theorem indexed_create (m : Nat) :
    Indexed computedHash (createPropertyMapHashTable (2 ^ (m + 1)) : PropertyMapHashTable κ C) := by
  have noKey (c : Nat) (entry : PropertyMapEntry κ C)
      (here : (List.replicate (1 + 2 ^ (m + 1) / 2) (unusedEntry : PropertyMapEntry κ C))[c]? = some entry) :
      entry.key = none := by
    rw [List.eq_of_mem_replicate (List.mem_of_getElem? here)]
    rfl
  have noIndex (s e : Nat) (here : (List.replicate (2 ^ (m + 1)) emptyEntryIndex)[s]? = some e) : e = 0 :=
    List.eq_of_mem_replicate (List.mem_of_getElem? here)
  constructor
  · exact ⟨m, rfl⟩
  · rfl
  · exact List.length_replicate
  · exact List.length_replicate
  · exact Nat.zero_le _
  · exact List.countP_eq_zero.mpr fun e member => by rw [List.eq_of_mem_replicate member]; decide
  · exact List.countP_eq_zero.mpr fun e member => by rw [List.eq_of_mem_replicate member]; decide
  · rw [keyed_create]
    rfl
  · rw [keyed_create]
    exact List.nodup_nil
  · intro c entry here isUsed
    rw [noKey c entry here] at isUsed
    cases isUsed
  · intro c entry rep here isKey
    rw [noKey c entry here] at isKey
    cases isKey
  · intro s e here large
    rw [noIndex s e here] at large
    omega
  · intro s s' e large here
    rw [noIndex s e here] at large
    omega

/-- An entry behind those that are used. -/
theorem Indexed.unused_behind (indexed : Indexed computedHash t) {c : Nat}
    (behind : t.keyCount + t.deletedSentinelCount < c) (inside : c ≤ t.size / 2) :
    ∃ unused, t.entries[c]? = some unused ∧ unused.key = none := by
  have bounded : c < t.entries.length := by
    rw [indexed.places]
    omega
  refine ⟨_, List.getElem?_eq_getElem bounded, ?_⟩
  cases isKey : (t.entries[c]).key with
  | none => rfl
  | some rep =>
    have within := (indexed.within c _ (List.getElem?_eq_getElem bounded) (by rw [isKey]; rfl)).2
    omega

theorem Indexed.size_even (indexed : Indexed computedHash t) : t.size = 2 * (t.size / 2) := by
  obtain ⟨m, size⟩ := indexed.power
  rw [size, Nat.pow_succ]
  omega

theorem keys_of_mem {x : κ × PropertyMapEntry κ C} (member : x ∈ t.keyed) : x.2.key = some x.1 :=
  (mem_keyed.mp member).1

/-- The entries with keys are those of the counted part of the list. -/
theorem Indexed.usedEntries_eq (indexed : Indexed computedHash t) : t.usedEntries = t.keyed := by
  have noKey (c : Nat) (entry : PropertyMapEntry κ C) (here : t.entries[c]? = some entry)
      (outside : c < 1 ∨ t.keyCount + t.deletedSentinelCount < c) :
      (entry.key.map fun rep => (rep, entry)) = none := by
    cases isKey : entry.key with
    | none => rfl
    | some rep =>
      have within := indexed.within c entry here (by rw [isKey]; rfl)
      omega
  have before : ((t.entries.take 1).filterMap fun entry => entry.key.map fun rep => (rep, entry)) = [] := by
    rw [List.filterMap_eq_nil_iff]
    intro entry member
    obtain ⟨c, here⟩ := List.getElem?_of_mem member
    rw [List.getElem?_take] at here
    split_ifs at here with first
    exact noKey c entry here (Or.inl first)
  have behind : (((t.entries.drop 1).drop (t.keyCount + t.deletedSentinelCount)).filterMap
      fun entry => entry.key.map fun rep => (rep, entry)) = [] := by
    rw [List.filterMap_eq_nil_iff]
    intro entry member
    obtain ⟨c, here⟩ := List.getElem?_of_mem member
    rw [List.getElem?_drop, List.getElem?_drop] at here
    exact noKey _ entry here (Or.inr (by omega))
  have split : t.entries = t.entries.take 1 ++ ((t.entries.drop 1).take (t.keyCount + t.deletedSentinelCount) ++
      (t.entries.drop 1).drop (t.keyCount + t.deletedSentinelCount)) := by
    rw [List.take_append_drop, List.take_append_drop]
  unfold usedEntries keyed
  rw [congrArg (List.filterMap fun entry => entry.key.map fun rep => (rep, entry)) split, List.filterMap_append,
    List.filterMap_append, before, behind, List.nil_append, List.append_nil]

theorem Indexed.insertInto (indexed : Indexed computedHash t) (noSentinel : t.deletedSentinelCount = 0)
    {rep : κ} {entry : PropertyMapEntry κ C} (isKey : entry.key = some rep)
    (absent : ∀ x ∈ t.keyed, x.1 ≠ rep) (room : (t.keyCount + 1) * 2 ≤ t.size) :
    ∃ t', insertIntoPropertyMapHashTable computedHash t rep entry = some t' ∧ Indexed computedHash t' ∧
      t'.keyed.Perm ((rep, entry) :: t.keyed) ∧ t'.keyCount = t.keyCount + 1 ∧ t'.deletedSentinelCount = 0 ∧
      t'.size = t.size ∧ t'.anonymousSlotCount = t.anonymousSlotCount := by
  obtain ⟨i, deleted, found, ⟨free, empty⟩, -⟩ := indexed.vacancy rep
  obtain ⟨unused, here, noKey⟩ := indexed.unused_behind (c := t.keyCount + 1) (by omega) (by omega)
  let t' := { t with
    entryIndices := t.entryIndices.set (i &&& t.sizeMask) (t.keyCount + 2)
    entries := t.entries.set (t.keyCount + 1) entry
    keyCount := t.keyCount + 1 }
  have inserted : insertIntoPropertyMapHashTable computedHash t rep entry = some t' := by
    unfold insertIntoPropertyMapHashTable
    rw [found]
    rfl
  have filled : Indexed computedHash t' ∧ t'.keyed.Perm ((rep, entry) :: t.keyed) :=
    indexed.fill isKey absent free here noKey (Nat.succ_pos _) rfl rfl rfl rfl rfl (Or.inl ⟨empty, rfl⟩)
      (Nat.le_add_right _ _) (by
        show (t.keyCount + 1 + t.deletedSentinelCount) * 2 ≤ t.size
        omega)
  exact ⟨t', inserted, filled.1, filled.2, rfl, noSentinel, rfl, rfl⟩

/-- Entries of different keys are put into a table without sentinels. -/
theorem Indexed.insertAll (indexed : Indexed computedHash t) (noSentinel : t.deletedSentinelCount = 0)
    {l : List (κ × PropertyMapEntry κ C)} (keys : ∀ x ∈ l, x.2.key = some x.1)
    (unique : ((t.keyed ++ l).map Prod.fst).Nodup) (room : (t.keyCount + l.length) * 2 ≤ t.size) :
    ∃ t', l.foldlM (fun t (rep, entry) => insertIntoPropertyMapHashTable computedHash t rep entry) t = some t' ∧
      Indexed computedHash t' ∧ t'.keyed.Perm (t.keyed ++ l) ∧ t'.deletedSentinelCount = 0 ∧
      t'.size = t.size ∧ t'.anonymousSlotCount = t.anonymousSlotCount := by
  induction l generalizing t with
  | nil => exact ⟨t, rfl, indexed, by rw [List.append_nil], noSentinel, rfl, rfl⟩
  | cons x l ih =>
    obtain ⟨rep, entry⟩ := x
    obtain ⟨isKey, keys⟩ := List.forall_mem_cons.mp keys
    rw [List.length_cons] at room
    have absent : ∀ x ∈ t.keyed, x.1 ≠ rep := by
      intro x member same
      rw [List.map_append, List.nodup_append] at unique
      exact unique.2.2 x.1 (List.mem_map_of_mem member) rep List.mem_cons_self same
    obtain ⟨t', inserted, indexed', perm, keyCount, noSentinel', size, slots⟩ :=
      indexed.insertInto noSentinel isKey absent (by omega)
    have moved : (t'.keyed ++ l).Perm (t.keyed ++ (rep, entry) :: l) :=
      (perm.append_right l).trans List.perm_middle.symm
    obtain ⟨t'', all, indexed'', perm', noSentinel'', size', slots'⟩ :=
      ih indexed' noSentinel' keys ((moved.map Prod.fst).nodup_iff.mpr unique) (by rw [keyCount, size]; omega)
    refine ⟨t'', ?_, indexed'', perm'.trans moved, noSentinel'', size'.trans size, slots'.trans slots⟩
    rw [List.foldlM_cons]
    dsimp only
    rw [inserted]
    exact all

/-- The greatest index of the entries. -/
def lastIndex (l : List (κ × PropertyMapEntry κ C)) : Nat := l.foldl (fun last (_, entry) => max entry.index last) 0

/-- The greatest index there is. -/
def IsLastIndex (l : List (κ × PropertyMapEntry κ C)) (last : Nat) : Prop :=
  (∀ x ∈ l, x.2.index ≤ last) ∧ (last = 0 ∨ ∃ x ∈ l, x.2.index = last)

theorem isLastIndex_lastIndex (l : List (κ × PropertyMapEntry κ C)) : IsLastIndex l (lastIndex l) := by
  have grows (l : List (κ × PropertyMapEntry κ C)) (last : Nat) :
      last ≤ l.foldl (fun last (_, entry) => max entry.index last) last ∧
      (∀ x ∈ l, x.2.index ≤ l.foldl (fun last (_, entry) => max entry.index last) last) ∧
      (l.foldl (fun last (_, entry) => max entry.index last) last = last ∨
        ∃ x ∈ l, x.2.index = l.foldl (fun last (_, entry) => max entry.index last) last) := by
    induction l generalizing last with
    | nil => exact ⟨Nat.le_refl last, fun x member => absurd member List.not_mem_nil, Or.inl rfl⟩
    | cons x l ih =>
      obtain ⟨above, all, attained⟩ := ih (max x.2.index last)
      rw [List.foldl_cons]
      change _ ≤ l.foldl _ (max x.2.index last) ∧ (∀ y ∈ x :: l, y.2.index ≤ l.foldl _ (max x.2.index last)) ∧
        (l.foldl _ (max x.2.index last) = _ ∨ ∃ y ∈ x :: l, y.2.index = l.foldl _ (max x.2.index last))
      refine ⟨Nat.le_trans (Nat.le_max_right _ _) above, ?_, ?_⟩
      · intro y member
        rcases List.mem_cons.mp member with rfl | member
        · exact Nat.le_trans (Nat.le_max_left _ _) above
        · exact all y member
      · rcases attained with same | ⟨y, member, same⟩
        · rcases Nat.le_total x.2.index last with less | more
          · rw [Nat.max_eq_right less] at same ⊢
            exact Or.inl same
          · rw [Nat.max_eq_left more] at same ⊢
            exact Or.inr ⟨x, List.mem_cons_self, same.symm⟩
        · exact Or.inr ⟨y, List.mem_cons_of_mem x member, same⟩
  exact ⟨(grows l 0).2.1, (grows l 0).2.2⟩

theorem IsLastIndex.perm {l l' : List (κ × PropertyMapEntry κ C)} {last : Nat} (isLast : IsLastIndex l last)
    (perm : l.Perm l') : IsLastIndex l' last := by
  unfold IsLastIndex at *
  simp only [perm.mem_iff] at isLast
  exact isLast

/-- Another table of the same entries. -/
theorem Indexed.rehash (indexed : Indexed computedHash t) {m : Nat} (room : t.keyCount * 2 ≤ 2 ^ (m + 1)) :
    ∃ t', rehashPropertyMapHashTable computedHash t (2 ^ (m + 1)) = some t' ∧ Indexed computedHash t' ∧
      t'.keyed.Perm t.keyed ∧ t'.deletedSentinelCount = 0 ∧ t'.size = 2 ^ (m + 1) ∧
      t'.anonymousSlotCount = t.anonymousSlotCount ∧ t'.deletedOffsets = t.deletedOffsets ∧
      IsLastIndex t'.keyed t'.lastIndexUsed := by
  let fresh : PropertyMapHashTable κ C := { createPropertyMapHashTable (2 ^ (m + 1)) with
    anonymousSlotCount := t.anonymousSlotCount }
  have indexedFresh : Indexed computedHash fresh := (indexed_create m).congr rfl
  have noKeys : fresh.keyed = [] := keyed_create (2 ^ (m + 1))
  obtain ⟨t', filled, indexed', perm, noSentinel, size, slots⟩ := indexedFresh.insertAll rfl
    (l := t.keyed) (fun x member => keys_of_mem member) (by rw [noKeys]; exact indexed.unique) (by
      show (0 + t.keyed.length) * 2 ≤ 2 ^ (m + 1)
      rw [indexed.count]
      omega)
  rw [noKeys, List.nil_append] at perm
  refine ⟨{ t' with lastIndexUsed := lastIndex t.keyed, deletedOffsets := t.deletedOffsets }, ?_,
    indexed'.congr rfl, perm, noSentinel, size, slots, rfl, (isLastIndex_lastIndex t.keyed).perm perm.symm⟩
  unfold rehashPropertyMapHashTable
  rw [indexed.usedEntries_eq]
  dsimp only
  rw [filled]
  rfl

theorem searchBack_spec (t : PropertyMapHashTable κ C) (n : Nat) : t.searchBack n ≤ n ∧
    (∀ c, t.searchBack n < c → c ≤ n → (t.entryAt c).key.isSome = true) ∧
    (t.searchBack n ≠ 0 → (t.entryAt (t.searchBack n)).key = none) := by
  induction n with
  | zero => exact ⟨Nat.le_refl 0, fun c greater le => by omega, fun absent => absurd rfl absent⟩
  | succ n ih =>
    rw [searchBack]
    split_ifs with isUsed
    · obtain ⟨below, all, free⟩ := ih
      refine ⟨by omega, ?_, free⟩
      intro c greater le
      rcases Nat.lt_or_eq_of_le le with less | rfl
      · exact all c greater (by omega)
      · exact isUsed
    · refine ⟨Nat.le_refl _, fun c greater le => by omega, fun _ => ?_⟩
      cases isKey : (t.entryAt (n + 1)).key with
      | none => rfl
      | some rep =>
        rw [isKey] at isUsed
        exact absurd rfl isUsed

/-- A free entry is found backwards, since there are fewer keys than counted entries. -/
theorem Indexed.searchBack (indexed : Indexed computedHash t) (someSentinel : 0 < t.deletedSentinelCount) :
    ∃ unused, t.entries[t.searchBack (t.keyCount + t.deletedSentinelCount)]? = some unused ∧ unused.key = none ∧
      1 ≤ t.searchBack (t.keyCount + t.deletedSentinelCount) ∧
      t.searchBack (t.keyCount + t.deletedSentinelCount) ≤ t.keyCount + t.deletedSentinelCount := by
  obtain ⟨below, all, free⟩ := searchBack_spec t (t.keyCount + t.deletedSentinelCount)
  have room := indexed.room
  have places := indexed.places
  have inside (c : Nat) (le : c ≤ t.keyCount + t.deletedSentinelCount) : c < t.entries.length := by omega
  have positive : t.searchBack (t.keyCount + t.deletedSentinelCount) ≠ 0 := by
    intro zero
    rw [zero] at all
    have everyKey : ∀ entry ∈ (t.entries.drop 1).take (t.keyCount + t.deletedSentinelCount),
        ((entry.key.map fun rep => (rep, entry)).isSome) = true := by
      intro entry member
      obtain ⟨c, here⟩ := List.getElem?_of_mem member
      rw [List.getElem?_take, List.getElem?_drop] at here
      split_ifs at here with within
      have isUsed := all (1 + c) (by omega) (by omega)
      rw [entryAt_of_getElem? here] at isUsed
      rw [Option.isSome_map]
      exact isUsed
    have length : t.usedEntries.length = t.keyCount + t.deletedSentinelCount := by
      unfold usedEntries
      rw [List.length_filterMap_eq_countP, List.countP_eq_length.mpr everyKey, List.length_take, List.length_drop]
      omega
    rw [indexed.usedEntries_eq, indexed.count] at length
    omega
  refine ⟨_, List.getElem?_eq_getElem (inside _ below), ?_, Nat.pos_of_ne_zero positive, below⟩
  rw [← entryAt_of_getElem? (List.getElem?_eq_getElem (inside _ below))]
  exact free positive

/-- A table that is too full is rehashed into one of twice the size. -/
theorem Indexed.expand (indexed : Indexed computedHash t) (filled : 0 < t.size) :
    ∃ t', expandPropertyMapHashTable computedHash t = some t' ∧ Indexed computedHash t' ∧
      (t'.keyCount + t'.deletedSentinelCount) * 2 < t'.size ∧ t'.keyed.Perm t.keyed ∧
      t'.anonymousSlotCount = t.anonymousSlotCount ∧ t'.deletedOffsets = t.deletedOffsets ∧
      IsLastIndex t'.keyed t'.lastIndexUsed := by
  obtain ⟨m, size⟩ := indexed.power
  have twice : t.size * 2 = 2 ^ (m + 1 + 1) := by rw [size, ← Nat.pow_succ]
  have room := indexed.room
  obtain ⟨t', rehashed, indexed', perm, noSentinel, size', slots, offsets, isLast⟩ :=
    indexed.rehash (m := m + 1) (by omega)
  refine ⟨t', ?_, indexed', ?_, perm, slots, offsets, isLast⟩
  · unfold expandPropertyMapHashTable
    rw [twice]
    exact rehashed
  · have count := perm.length_eq
    rw [indexed.count, indexed'.count] at count
    rw [noSentinel, size', count, ← twice]
    omega

/-- The offset that is taken next, and the free list behind it. -/
def nextOffset (t : PropertyMapHashTable κ C) : Nat × List Nat :=
  match t.deletedOffsets with
  | last :: rest => (last, rest)
  | [] => (t.keyCount + t.anonymousSlotCount, [])

/-- The table with a further entry, before it is looked whether it is too full. -/
def place (t : PropertyMapHashTable κ C) (p c deletedSentinelCount : Nat) (entry : PropertyMapEntry κ C)
    (lastIndexUsed : Nat) : PropertyMapHashTable κ C :=
  { t with
    entryIndices := t.entryIndices.set (p &&& t.sizeMask) (c + 1)
    entries := t.entries.set c entry
    keyCount := t.keyCount + 1
    deletedSentinelCount
    deletedOffsets := t.nextOffset.2
    lastIndexUsed }

/-- What `put` does with a key that is not in the table. -/
theorem Indexed.put (indexed : Indexed computedHash t)
    (roomy : (t.keyCount + t.deletedSentinelCount) * 2 < t.size) {rep : κ} (absent : ∀ x ∈ t.keyed, x.1 ≠ rep)
    (attributes : Nat) (specificValue : Option C) :
    ∃ t', put computedHash t rep attributes specificValue = some (t.nextOffset.1, t') ∧
      Indexed computedHash t' ∧ (t'.keyCount + t'.deletedSentinelCount) * 2 < t'.size ∧
      t'.keyed.Perm ((rep, ⟨some rep, t.nextOffset.1, attributes, specificValue, (t.lastIndexUsed + 1) % 2 ^ 32⟩) ::
        t.keyed) ∧
      t'.deletedOffsets = t.nextOffset.2 ∧ t'.anonymousSlotCount = t.anonymousSlotCount ∧
      (t'.lastIndexUsed = (t.lastIndexUsed + 1) % 2 ^ 32 ∨ IsLastIndex t'.keyed t'.lastIndexUsed) := by
  let entry : PropertyMapEntry κ C :=
    ⟨some rep, t.nextOffset.1, attributes, specificValue, (t.lastIndexUsed + 1) % 2 ^ 32⟩
  have placed (p c deletedSentinelCount : Nat)
      (filled : Indexed computedHash (t.place p c deletedSentinelCount entry ((t.lastIndexUsed + 1) % 2 ^ 32)) ∧
        (t.place p c deletedSentinelCount entry ((t.lastIndexUsed + 1) % 2 ^ 32)).keyed.Perm
          ((rep, entry) :: t.keyed)) :
      ∃ t', (if (t.keyCount + 1 + deletedSentinelCount) * 2 ≥ t.size then do
          let expanded ← expandPropertyMapHashTable computedHash
            (t.place p c deletedSentinelCount entry ((t.lastIndexUsed + 1) % 2 ^ 32))
          pure (t.nextOffset.1, expanded)
        else pure (t.nextOffset.1, t.place p c deletedSentinelCount entry ((t.lastIndexUsed + 1) % 2 ^ 32)) :
          Option (Nat × PropertyMapHashTable κ C)) = some (t.nextOffset.1, t') ∧
        Indexed computedHash t' ∧ (t'.keyCount + t'.deletedSentinelCount) * 2 < t'.size ∧
        t'.keyed.Perm ((rep, entry) :: t.keyed) ∧
        t'.deletedOffsets = t.nextOffset.2 ∧ t'.anonymousSlotCount = t.anonymousSlotCount ∧
        (t'.lastIndexUsed = (t.lastIndexUsed + 1) % 2 ^ 32 ∨ IsLastIndex t'.keyed t'.lastIndexUsed) := by
    obtain ⟨indexed', perm⟩ := filled
    split_ifs with full
    · have positive : 0 < t.size := Nat.lt_of_le_of_lt (Nat.zero_le _) roomy
      obtain ⟨t', expanded, indexed'', roomy', perm', slots, offsets, isLast⟩ := indexed'.expand positive
      refine ⟨t', ?_, indexed'', roomy', perm'.trans perm, offsets, slots, Or.inr isLast⟩
      rw [expanded]
      rfl
    · exact ⟨_, rfl, indexed', Nat.lt_of_not_le full, perm, rfl, rfl, Or.inl rfl⟩
  obtain ⟨i, deleted, found, ⟨free, empty⟩, remembered⟩ := indexed.vacancy rep
  unfold PropertyMapHashTable.put
  rw [found]
  cases deleted with
  | none =>
    have even := indexed.size_even
    obtain ⟨unused, here, noKey⟩ := indexed.unused_behind (c := t.keyCount + t.deletedSentinelCount + 1)
      (Nat.lt_succ_self _) (by omega)
    have bounded : t.keyCount + t.deletedSentinelCount + 1 ≤ t.keyCount + 1 + t.deletedSentinelCount := by omega
    have room : (t.keyCount + 1 + t.deletedSentinelCount) * 2 ≤ t.size := by omega
    exact placed i (t.keyCount + t.deletedSentinelCount + 1) t.deletedSentinelCount
      (indexed.fill rfl absent free here noKey (Nat.succ_pos _) rfl rfl rfl rfl rfl (Or.inl ⟨empty, rfl⟩) bounded
        room)
  | some i' =>
    obtain ⟨free', sentinel⟩ := remembered i' rfl
    have someSentinel : 0 < t.deletedSentinelCount := by
      rw [← indexed.sentinels, List.countP_pos_iff]
      exact ⟨1, List.mem_of_getElem? (sentinel ▸ indexed.indexAt i'), by decide⟩
    obtain ⟨unused, here, noKey, positive, below⟩ := indexed.searchBack someSentinel
    have fewer : t.deletedSentinelCount - 1 + 1 = t.deletedSentinelCount := Nat.sub_add_cancel someSentinel
    have bounded : t.searchBack (t.keyCount + t.deletedSentinelCount) ≤
        t.keyCount + 1 + (t.deletedSentinelCount - 1) := by omega
    have room : (t.keyCount + 1 + (t.deletedSentinelCount - 1)) * 2 ≤ t.size := by omega
    exact placed i' (t.searchBack (t.keyCount + t.deletedSentinelCount)) (t.deletedSentinelCount - 1)
      (indexed.fill rfl absent free' here noKey positive rfl rfl rfl rfl rfl (Or.inr ⟨sentinel, fewer⟩) bounded
        room)

/-! Operations that leave the keys in their places. -/

/-- The entries are changed, but not their keys. -/
theorem Indexed.mapEntries (indexed : Indexed computedHash t) {f : PropertyMapEntry κ C → PropertyMapEntry κ C}
    (keys : ∀ entry, (f entry).key = entry.key) {t' : PropertyMapHashTable κ C}
    (same : (t'.sizeMask, t'.size, t'.keyCount, t'.deletedSentinelCount, t'.entryIndices, t'.entries) =
      (t.sizeMask, t.size, t.keyCount, t.deletedSentinelCount, t.entryIndices, t.entries.map f)) :
    Indexed computedHash t' ∧ t'.keyed = t.keyed.map fun x => (x.1, f x.2) := by
  simp only [Prod.mk.injEq] at same
  obtain ⟨mask, size, keyCount, sentinels, indices, entries⟩ := same
  have keyed_eq : t'.keyed = t.keyed.map fun x => (x.1, f x.2) := by
    unfold keyed
    rw [entries, List.filterMap_map, List.map_filterMap]
    congr 1
    funext entry
    rw [Function.comp_apply, keys, Option.map_map]
    rfl
  have indexAt (i : Nat) : t'.entryIndexAt i = t.entryIndexAt i := by
    unfold entryIndexAt
    rw [indices, mask]
  have entryOf (c : Nat) (entry' : PropertyMapEntry κ C) (here : t'.entries[c]? = some entry') :
      ∃ entry, t.entries[c]? = some entry ∧ entry'.key = entry.key := by
    rw [entries, List.getElem?_map] at here
    obtain ⟨entry, there, rfl⟩ := Option.map_eq_some_iff.mp here
    exact ⟨entry, there, keys entry⟩
  refine ⟨?_, keyed_eq⟩
  constructor
  · rw [size]
    exact indexed.power
  · rw [mask, size]
    exact indexed.mask
  · rw [indices, size]
    exact indexed.slots
  · rw [entries, List.length_map, size]
    exact indexed.places
  · rw [keyCount, sentinels, size]
    exact indexed.room
  · rw [indices, keyCount, sentinels]
    exact indexed.filled
  · rw [indices, sentinels]
    exact indexed.sentinels
  · rw [keyed_eq, List.length_map, keyCount]
    exact indexed.count
  · rw [keyed_eq, List.map_map]
    exact indexed.unique
  · intro c entry' here isUsed
    obtain ⟨entry, there, same⟩ := entryOf c entry' here
    rw [same] at isUsed
    rw [keyCount, sentinels]
    exact indexed.within c entry there isUsed
  · intro c entry' rep here isKey
    obtain ⟨entry, there, same⟩ := entryOf c entry' here
    obtain ⟨i, free, reached⟩ := indexed.reached c entry rep there (same.symm.trans isKey)
    refine ⟨i, free.mono fun i filled => ?_, (indexAt i).trans reached⟩
    rw [indexAt]
    exact filled
  · intro s e here large
    rw [indices] at here
    obtain ⟨entry, there, isUsed⟩ := indexed.owned s e here large
    refine ⟨f entry, ?_, by rw [keys]; exact isUsed⟩
    rw [entries, List.getElem?_map, there]
    rfl
  · intro s s' e large here here'
    rw [indices] at here here'
    exact indexed.single s s' e large here here'

end

section
variable {κ C : Type} [DecidableEq κ] {computedHash : κ → UInt32} {t : PropertyMapHashTable κ C} {rep : κ}

theorem Indexed.get_absent (indexed : Indexed computedHash t) (absent : ∀ x ∈ t.keyed, x.1 ≠ rep) :
    get computedHash t rep = some none := by
  unfold PropertyMapHashTable.get
  rw [indexed.lookup_absent absent]
  rfl

theorem Indexed.get_present (indexed : Indexed computedHash t) {entry : PropertyMapEntry κ C}
    (listed : (rep, entry) ∈ t.keyed) :
    get computedHash t rep = some (some (entry.offset, entry.attributes, entry.specificValue)) := by
  obtain ⟨isKey, c, here⟩ := mem_keyed.mp listed
  obtain ⟨i, found, -⟩ := indexed.lookup_present here isKey
  unfold PropertyMapHashTable.get
  rw [found]
  show some (some ((t.entryAt (c + 1 - 1)).offset, (t.entryAt (c + 1 - 1)).attributes,
    (t.entryAt (c + 1 - 1)).specificValue)) = _
  rw [Nat.add_sub_cancel, entryAt_of_getElem? here]

theorem Indexed.remove_absent (indexed : Indexed computedHash t) (absent : ∀ x ∈ t.keyed, x.1 ≠ rep) :
    remove computedHash t rep = some (none, t) := by
  unfold PropertyMapHashTable.remove
  rw [indexed.lookup_absent absent]
  rfl

/-- The table without the entry of a key, before it is looked whether it has too many sentinels. -/
def unplace (t : PropertyMapHashTable κ C) (p c : Nat) (entry : PropertyMapEntry κ C) :
    PropertyMapHashTable κ C :=
  { t with
    entryIndices := t.entryIndices.set (p &&& t.sizeMask) 1
    entries := t.entries.set c { entry with key := none, attributes := 0, specificValue := none, offset := 0 }
    deletedOffsets := entry.offset :: t.deletedOffsets
    keyCount := t.keyCount - 1
    deletedSentinelCount := t.deletedSentinelCount + 1 }

/-- What `remove` does with a key that is in the table. -/
theorem Indexed.remove (indexed : Indexed computedHash t)
    (roomy : (t.keyCount + t.deletedSentinelCount) * 2 < t.size) {entry : PropertyMapEntry κ C}
    (listed : (rep, entry) ∈ t.keyed) :
    ∃ t', remove computedHash t rep = some (some entry.offset, t') ∧ Indexed computedHash t' ∧
      (t'.keyCount + t'.deletedSentinelCount) * 2 < t'.size ∧ t.keyed.Perm ((rep, entry) :: t'.keyed) ∧
      t'.deletedOffsets = entry.offset :: t.deletedOffsets ∧ t'.anonymousSlotCount = t.anonymousSlotCount ∧
      (t'.lastIndexUsed = t.lastIndexUsed ∨ IsLastIndex t'.keyed t'.lastIndexUsed) := by
  obtain ⟨isKey, c, here⟩ := mem_keyed.mp listed
  obtain ⟨i, found, index⟩ := indexed.lookup_present here isKey
  have filled : 0 < t.keyCount := by
    rw [← indexed.count]
    exact List.length_pos_of_mem listed
  have keys : t.keyCount - 1 + 1 = t.keyCount := Nat.sub_add_cancel filled
  have dropped : Indexed computedHash (t.unplace i c entry) ∧
      t.keyed.Perm ((rep, entry) :: (t.unplace i c entry).keyed) :=
    indexed.drop here isKey rfl index rfl rfl rfl rfl keys rfl
  obtain ⟨indexed', perm⟩ := dropped
  have removed : PropertyMapHashTable.remove computedHash t rep =
      if (t.deletedSentinelCount + 1) * 4 ≥ t.size then do
        let rehashed ← rehashPropertyMapHashTable computedHash (t.unplace i c entry) t.size
        pure (some entry.offset, rehashed)
      else pure (some entry.offset, t.unplace i c entry) := by
    unfold PropertyMapHashTable.remove unplace
    rw [found]
    dsimp only [Option.bind_eq_bind, Option.bind_some]
    rw [Nat.add_sub_cancel, entryAt_of_getElem? here]
    rfl
  rw [removed]
  split_ifs with many
  · obtain ⟨m, size⟩ := indexed.power
    have room : (t.keyCount - 1) * 2 ≤ 2 ^ (m + 1) := by omega
    obtain ⟨t', rehashed, indexed'', perm', noSentinel, size', slots, offsets, isLast⟩ := indexed'.rehash room
    refine ⟨t', ?_, indexed'', ?_, perm.trans (perm'.symm.cons _), offsets, slots, Or.inr isLast⟩
    · rw [size, rehashed]
      rfl
    · have count := perm'.length_eq
      rw [indexed''.count, indexed'.count] at count
      have fewer : t'.keyCount = t.keyCount - 1 := count
      rw [noSentinel, size', fewer, ← size]
      omega
  · refine ⟨_, rfl, indexed', ?_, perm, rfl, rfl, Or.inl rfl⟩
    show (t.keyCount - 1 + (t.deletedSentinelCount + 1)) * 2 < t.size
    omega

theorem Indexed.despecifyFunction_absent (indexed : Indexed computedHash t)
    (absent : ∀ x ∈ t.keyed, x.1 ≠ rep) : despecifyFunction computedHash t rep = some (false, t) := by
  unfold despecifyFunction
  rw [indexed.lookup_absent absent]
  rfl

def unspecified (rep : κ) (entry : PropertyMapEntry κ C) : PropertyMapEntry κ C :=
  if entry.key = some rep then { entry with specificValue := none } else entry

/-- `despecifyFunction` changes one entry. -/
theorem Indexed.despecifyFunction_present (indexed : Indexed computedHash t) {entry : PropertyMapEntry κ C}
    (listed : (rep, entry) ∈ t.keyed) :
    despecifyFunction computedHash t rep =
      some (true, { t with entries := t.entries.map (unspecified rep) }) := by
  obtain ⟨isKey, c, here⟩ := mem_keyed.mp listed
  obtain ⟨i, found, -⟩ := indexed.lookup_present here isKey
  have inside : c < t.entries.length := (List.getElem?_eq_some_iff.mp here).1
  have entries : t.entries.set c { entry with specificValue := none } = t.entries.map (unspecified rep) := by
    apply List.ext_getElem?
    intro c'
    rw [List.getElem?_set, List.getElem?_map]
    by_cases same : c = c'
    · rw [if_pos same, if_pos inside, ← same, here, Option.map_some, unspecified, if_pos isKey]
    · rw [if_neg same]
      cases there : t.entries[c']? with
      | none => rfl
      | some other =>
        rw [Option.map_some, unspecified, if_neg]
        intro isKey'
        exact same (indexed.entry_unique here there isKey isKey')
  unfold despecifyFunction
  rw [found]
  dsimp only [Option.bind_eq_bind, Option.bind_some]
  rw [Nat.add_sub_cancel, entryAt_of_getElem? here, entries]
  rfl

end

end WkcBrowser.Runtime.PropertyMapHashTable
