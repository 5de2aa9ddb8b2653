import WkcBrowser.Runtime.PropertyMapHashTable

/-! What the index table of a property table keeps: every key is reached by its probes, and an empty place is. -/

namespace WkcBrowser.Runtime.PropertyMapHashTable

open Lib

section
variable {κ C : Type}

/-- The entries with keys. -/
def keyed (t : PropertyMapHashTable κ C) : List (κ × PropertyMapEntry κ C) :=
  t.entries.filterMap fun entry => entry.key.map fun rep => (rep, entry)

def probe (computedHash : κ → UInt32) (rep : κ) (j : Nat) : Nat :=
  (computedHash rep).toNat + j * stride computedHash rep

/-- No empty place comes before this probe of the key. -/
def Free (computedHash : κ → UInt32) (t : PropertyMapHashTable κ C) (rep : κ) (i : Nat) : Prop :=
  ∃ j, i = probe computedHash rep j ∧ ∀ j' < j, t.entryIndexAt (probe computedHash rep j') ≠ 0

/-- The indices lead to the entries that have keys. -/
structure Indexed (computedHash : κ → UInt32) (t : PropertyMapHashTable κ C) : Prop where
  power : ∃ m, t.size = 2 ^ (m + 1)
  mask : t.sizeMask = t.size - 1
  slots : t.entryIndices.length = t.size
  places : t.entries.length = 1 + t.size / 2
  room : (t.keyCount + t.deletedSentinelCount) * 2 ≤ t.size
  filled : t.entryIndices.countP (fun e => e ≠ 0) = t.keyCount + t.deletedSentinelCount
  sentinels : t.entryIndices.countP (fun e => e = 1) = t.deletedSentinelCount
  count : t.keyed.length = t.keyCount
  unique : (t.keyed.map Prod.fst).Nodup
  within : ∀ (c : Nat) entry, t.entries[c]? = some entry → entry.key.isSome = true →
    1 ≤ c ∧ c ≤ t.keyCount + t.deletedSentinelCount
  reached : ∀ (c : Nat) entry rep, t.entries[c]? = some entry → entry.key = some rep →
    ∃ i, Free computedHash t rep i ∧ t.entryIndexAt i = c + 1
  owned : ∀ s e : Nat, t.entryIndices[s]? = some e → 2 ≤ e →
    ∃ entry, t.entries[e - 1]? = some entry ∧ entry.key.isSome = true
  single : ∀ s s' e : Nat, 2 ≤ e → t.entryIndices[s]? = some e → t.entryIndices[s']? = some e → s = s'

variable {computedHash : κ → UInt32} {t : PropertyMapHashTable κ C}

theorem stride_odd (rep : κ) : stride computedHash rep % 2 = 1 := by
  unfold stride
  rw [UInt32.toNat_or, UInt32.toNat_one, Nat.or_mod_two_eq_one]
  exact Or.inl rfl

theorem map_key {rep : κ} {entry : PropertyMapEntry κ C} (isKey : entry.key = some rep) :
    (entry.key.map fun rep => (rep, entry)) = some (rep, entry) := by
  rw [isKey]
  rfl

theorem mem_keyed {rep : κ} {entry : PropertyMapEntry κ C} :
    (rep, entry) ∈ t.keyed ↔ entry.key = some rep ∧ ∃ c : Nat, t.entries[c]? = some entry := by
  unfold keyed
  rw [List.mem_filterMap]
  constructor
  · rintro ⟨entry', member, found⟩
    obtain ⟨rep', isKey, same⟩ := Option.map_eq_some_iff.mp found
    obtain ⟨rfl, rfl⟩ := Prod.mk.inj same
    exact ⟨isKey, List.getElem?_of_mem member⟩
  · rintro ⟨isKey, c, here⟩
    exact ⟨entry, List.mem_of_getElem? here, map_key isKey⟩

theorem Indexed.mask_eq (indexed : Indexed computedHash t) (i : Nat) : i &&& t.sizeMask = i % t.size := by
  obtain ⟨m, size⟩ := indexed.power
  rw [indexed.mask, size, Nat.and_two_pow_sub_one_eq_mod]

theorem Indexed.mask_lt (indexed : Indexed computedHash t) (i : Nat) :
    i &&& t.sizeMask < t.entryIndices.length := by
  obtain ⟨m, size⟩ := indexed.power
  rw [indexed.mask_eq, indexed.slots, size]
  exact Nat.mod_lt _ (Nat.two_pow_pos _)

theorem Indexed.indexAt (indexed : Indexed computedHash t) (i : Nat) :
    t.entryIndices[i &&& t.sizeMask]? = some (t.entryIndexAt i) := by
  unfold entryIndexAt
  rw [List.getD_eq_getElem?_getD, List.getElem?_eq_getElem (indexed.mask_lt i)]
  rfl

theorem entryAt_of_getElem? {c : Nat} {entry : PropertyMapEntry κ C} (here : t.entries[c]? = some entry) :
    t.entryAt c = entry := by
  unfold entryAt
  rw [List.getD_eq_getElem?_getD, here]
  rfl

/-- Only entries of the table have keys. -/
theorem keyed_of_entryAt {c : Nat} {rep : κ} (isKey : (t.entryAt c).key = some rep) :
    ∃ entry, t.entries[c]? = some entry ∧ entry.key = some rep := by
  unfold entryAt at isKey
  rw [List.getD_eq_getElem?_getD] at isKey
  cases here : t.entries[c]? with
  | none =>
    rw [here] at isKey
    cases isKey
  | some entry =>
    rw [here] at isKey
    exact ⟨entry, rfl, isKey⟩

/-- A place is empty, and some probe comes to it. -/
theorem Indexed.exists_empty (indexed : Indexed computedHash t) (rep : κ) :
    ∃ j < t.size, t.entryIndexAt (probe computedHash rep j) = 0 := by
  obtain ⟨m, size⟩ := indexed.power
  have positive : 0 < t.size := by
    rw [size]
    exact Nat.two_pow_pos _
  have notFull : ¬∀ e ∈ t.entryIndices, (fun e => decide (e ≠ 0)) e = true := by
    rw [← List.countP_eq_length, indexed.filled, indexed.slots]
    have room := indexed.room
    omega
  obtain ⟨e, member, empty⟩ : ∃ e ∈ t.entryIndices, e = 0 := by
    by_contra none_empty
    apply notFull
    intro e member
    exact decide_eq_true fun empty => none_empty ⟨e, member, empty⟩
  obtain ⟨place, inside, here⟩ := List.getElem_of_mem member
  rw [indexed.slots, size] at inside
  have odd : stride computedHash rep % 2 = 1 := stride_odd rep
  obtain ⟨j, small, reached⟩ := exists_probe odd (computedHash rep).toNat inside
  rw [← size] at small reached
  refine ⟨j, small, ?_⟩
  have found := indexed.indexAt (probe computedHash rep j)
  rw [indexed.mask_eq, probe, reached, List.getElem?_eq_getElem (by rw [indexed.slots, size]; exact inside),
    here, empty] at found
  exact (Option.some.inj found).symm

theorem probe_succ (rep : κ) (i j : Nat) : i + stride computedHash rep + j * stride computedHash rep =
    i + (j + 1) * stride computedHash rep := by
  rw [Nat.succ_mul]
  omega

/-- The first empty place that the probes of a key come to. -/
theorem Indexed.first_empty (indexed : Indexed computedHash t) (rep : κ) :
    ∃ j < t.size, t.entryIndexAt (probe computedHash rep j) = 0 ∧
      ∀ j' < j, t.entryIndexAt (probe computedHash rep j') ≠ 0 := by
  obtain ⟨j₀, small, empty⟩ := indexed.exists_empty rep
  have exists_first : ∃ j, t.entryIndexAt (probe computedHash rep j) = 0 := ⟨j₀, empty⟩
  exact ⟨Nat.find exists_first, Nat.lt_of_le_of_lt (Nat.find_min' exists_first empty) small,
    Nat.find_spec exists_first, fun _ less => Nat.find_min exists_first less⟩

/-- The loop of `put` ends at the first empty place; the sentinel it remembers comes before it. -/
theorem findPlace_of_first {rep : κ} {j turns i : Nat} (deleted : Option Nat) (enough : j < turns)
    (before : ∀ j' < j, t.entryIndexAt (i + j' * stride computedHash rep) ≠ 0)
    (empty : t.entryIndexAt (i + j * stride computedHash rep) = 0) :
    ∃ deleted', findPlace computedHash t rep turns i deleted =
        some (i + j * stride computedHash rep, deleted') ∧
      (deleted' = deleted ∨ ∃ j' < j, deleted' = some (i + j' * stride computedHash rep) ∧
        t.entryIndexAt (i + j' * stride computedHash rep) = 1) := by
  induction j generalizing i turns deleted with
  | zero =>
    obtain ⟨turns, rfl⟩ := Nat.exists_eq_succ_of_ne_zero (Nat.ne_of_gt enough)
    rw [Nat.zero_mul, Nat.add_zero] at empty ⊢
    have empty' : t.entryIndexAt i = emptyEntryIndex := empty
    refine ⟨deleted, ?_, Or.inl rfl⟩
    rw [findPlace]
    exact if_pos empty'
  | succ j ih =>
    obtain ⟨turns, rfl⟩ := Nat.exists_eq_succ_of_ne_zero (Nat.ne_of_gt (Nat.zero_lt_of_lt enough))
    have first := before 0 (Nat.succ_pos j)
    rw [Nat.zero_mul, Nat.add_zero] at first
    have filled : ¬t.entryIndexAt i = emptyEntryIndex := first
    rw [← probe_succ] at empty ⊢
    obtain ⟨deleted', found, remembered⟩ := ih (if t.entryIndexAt i = deletedSentinelIndex then
        deleted.or (some i) else deleted) (Nat.lt_of_succ_lt_succ enough) (fun j' less => by
      rw [probe_succ]
      exact before (j' + 1) (Nat.succ_lt_succ less)) empty
    refine ⟨deleted', ?_, ?_⟩
    · rw [findPlace]
      exact (if_neg filled).trans found
    · rcases remembered with same | ⟨j', less, same, sentinel⟩
      · by_cases sentinel : t.entryIndexAt i = deletedSentinelIndex
        · rw [if_pos sentinel] at same
          cases deleted with
          | none =>
            right
            refine ⟨0, Nat.succ_pos j, ?_, ?_⟩
            · rw [same, Nat.zero_mul, Nat.add_zero]
              rfl
            · rw [Nat.zero_mul, Nat.add_zero]
              exact sentinel
          | some i' => exact Or.inl same
        · rw [if_neg sentinel] at same
          exact Or.inl same
      · rw [probe_succ] at same sentinel
        exact Or.inr ⟨j' + 1, Nat.succ_lt_succ less, same, sentinel⟩

/-- Where a key can be put. -/
theorem Indexed.vacancy (indexed : Indexed computedHash t) (rep : κ) :
    ∃ i deleted, vacancy computedHash t rep = some (i, deleted) ∧
      (Free computedHash t rep i ∧ t.entryIndexAt i = 0) ∧
      ∀ i', deleted = some i' → Free computedHash t rep i' ∧ t.entryIndexAt i' = 1 := by
  obtain ⟨j, small, empty, before⟩ := indexed.first_empty rep
  obtain ⟨deleted, found, remembered⟩ := findPlace_of_first none small before empty
  refine ⟨_, deleted, found, ⟨⟨j, rfl, before⟩, empty⟩, ?_⟩
  intro i' same
  rcases remembered with absent | ⟨j', less, there, sentinel⟩
  · rw [absent] at same
    cases same
  · rw [there] at same
    obtain rfl := Option.some.inj same
    exact ⟨⟨j', rfl, fun j'' earlier => before j'' (Nat.lt_trans earlier less)⟩, sentinel⟩

/-! What changes when one place of the index table is set. -/

theorem Indexed.indexAt_set (indexed : Indexed computedHash t) {t' : PropertyMapHashTable κ C} {p v : Nat}
    (mask : t'.sizeMask = t.sizeMask) (replaced : t'.entryIndices = t.entryIndices.set (p &&& t.sizeMask) v)
    (i : Nat) : t'.entryIndexAt i = if p &&& t.sizeMask = i &&& t.sizeMask then v else t.entryIndexAt i := by
  unfold entryIndexAt
  rw [replaced, mask, List.getD_eq_getElem?_getD, List.getD_eq_getElem?_getD, List.getElem?_set]
  by_cases same : p &&& t.sizeMask = i &&& t.sizeMask
  · rw [if_pos same, if_pos same, if_pos (indexed.mask_lt p)]
    rfl
  · rw [if_neg same, if_neg same]

theorem Free.mono {t' : PropertyMapHashTable κ C} {rep : κ} {i : Nat} (free : Free computedHash t rep i)
    (kept : ∀ i, t.entryIndexAt i ≠ 0 → t'.entryIndexAt i ≠ 0) : Free computedHash t' rep i := by
  obtain ⟨j, here, before⟩ := free
  exact ⟨j, here, fun j' less => kept _ (before j' less)⟩

theorem entryIndexAt_congr {i p : Nat} (same : p &&& t.sizeMask = i &&& t.sizeMask) :
    t.entryIndexAt i = t.entryIndexAt p := by
  unfold entryIndexAt
  rw [same]

/-- An index behind the sentinel leads to a key. -/
theorem Indexed.not_index (indexed : Indexed computedHash t) {c : Nat} {unused : PropertyMapEntry κ C}
    (notUsed : t.entries[c]? = some unused) (noKey : unused.key = none) (behind : 1 ≤ c) (place : Nat) :
    t.entryIndices[place]? ≠ some (c + 1) := by
  intro here
  obtain ⟨entry, there, isKey⟩ := indexed.owned place (c + 1) here (by omega)
  rw [Nat.add_sub_cancel, notUsed] at there
  obtain rfl := Option.some.inj there
  rw [noKey] at isKey
  cases isKey

/-- The entry of a key is no longer used, and its place in the index table becomes a sentinel. -/
theorem Indexed.drop (indexed : Indexed computedHash t) {t' : PropertyMapHashTable κ C} {rep : κ}
    {p c : Nat} {entry unused : PropertyMapEntry κ C} (here : t.entries[c]? = some entry)
    (isKey : entry.key = some rep) (noKey : unused.key = none) (index : t.entryIndexAt p = c + 1)
    (size : t'.size = t.size) (mask : t'.sizeMask = t.sizeMask)
    (indices : t'.entryIndices = t.entryIndices.set (p &&& t.sizeMask) 1)
    (entries : t'.entries = t.entries.set c unused) (keys : t'.keyCount + 1 = t.keyCount)
    (sentinels : t'.deletedSentinelCount = t.deletedSentinelCount + 1) :
    Indexed computedHash t' ∧ t.keyed.Perm ((rep, entry) :: t'.keyed) := by
  have perm : t.keyed.Perm ((rep, entry) :: t'.keyed) := by
    unfold keyed
    rw [entries]
    exact filterMap_set_none here (map_key isKey) (by rw [noKey]; rfl)
  have positive := (indexed.within c entry here (by rw [isKey]; rfl)).1
  have indexAt := indexed.indexAt_set mask indices
  have kept (i : Nat) (filled : t.entryIndexAt i ≠ 0) : t'.entryIndexAt i ≠ 0 := by
    rw [indexAt]
    split_ifs
    · exact Nat.one_ne_zero
    · exact filled
  have below := indexed.mask_lt p
  have old : t.entryIndices[p &&& t.sizeMask] = c + 1 := by
    have there := indexed.indexAt p
    rw [List.getElem?_eq_getElem (indexed.mask_lt p), index] at there
    exact Option.some.inj there
  have atPlace : t.entryIndices[p &&& t.sizeMask]? = some (c + 1) := by
    rw [List.getElem?_eq_getElem (indexed.mask_lt p), old]
  refine ⟨?_, perm⟩
  constructor
  · rw [size]
    exact indexed.power
  · rw [mask, size]
    exact indexed.mask
  · rw [indices, List.length_set, size]
    exact indexed.slots
  · rw [entries, List.length_set, size]
    exact indexed.places
  · have room := indexed.room
    rw [size]
    omega
  · have filled := indexed.filled
    rw [indices, List.countP_set (indexed.mask_lt p), old, filled]
    simp
    omega
  · have counted := indexed.sentinels
    have notSentinel : (decide (c + 1 = 1)) = false := decide_eq_false (by omega)
    rw [indices, List.countP_set (indexed.mask_lt p), old, counted, notSentinel]
    simp
    omega
  · have counted := indexed.count
    rw [perm.length_eq, List.length_cons] at counted
    omega
  · have unique := indexed.unique
    rw [(perm.map Prod.fst).nodup_iff, List.map_cons, List.nodup_cons] at unique
    exact unique.2
  · intro c' entry' here' isUsed
    rw [entries, List.getElem?_set] at here'
    split_ifs at here' with same
    · obtain rfl := Option.some.inj here'
      rw [noKey] at isUsed
      cases isUsed
    · have within := indexed.within c' entry' here' isUsed
      omega
  · intro c' entry' rep' here' isKey'
    rw [entries, List.getElem?_set] at here'
    split_ifs at here' with same
    · obtain rfl := Option.some.inj here'
      rw [noKey] at isKey'
      cases isKey'
    · obtain ⟨i, free, reached⟩ := indexed.reached c' entry' rep' here' isKey'
      refine ⟨i, free.mono kept, ?_⟩
      rw [indexAt, if_neg, reached]
      intro samePlace
      rw [entryIndexAt_congr samePlace, index] at reached
      omega
  · intro place e here' large
    rw [indices, List.getElem?_set, if_pos (indexed.mask_lt p)] at here'
    split_ifs at here' with same
    · obtain rfl := Option.some.inj here'
      omega
    · obtain ⟨entry', there, isUsed⟩ := indexed.owned place e here' large
      refine ⟨entry', ?_, isUsed⟩
      rw [entries, List.getElem?_set, if_neg, there]
      intro sameEntry
      have sameIndex : e = c + 1 := by omega
      rw [sameIndex] at here'
      exact same (indexed.single _ place (c + 1) (by omega) atPlace here')
  · intro place place' e large here' here''
    rw [indices, List.getElem?_set, if_pos (indexed.mask_lt p)] at here' here''
    split_ifs at here' here'' with same same'
    · exact same.symm.trans same'
    · obtain rfl := Option.some.inj here'
      omega
    · obtain rfl := Option.some.inj here''
      omega
    · exact indexed.single place place' e large here' here''

/-- An entry is put where none was, at a place of the index table that its probes come to. -/
theorem Indexed.fill (indexed : Indexed computedHash t) {t' : PropertyMapHashTable κ C} {rep : κ}
    {p c : Nat} {unused entry : PropertyMapEntry κ C} (isKey : entry.key = some rep)
    (absent : ∀ x ∈ t.keyed, x.1 ≠ rep) (free : Free computedHash t rep p)
    (notUsed : t.entries[c]? = some unused) (noKey : unused.key = none) (behind : 1 ≤ c)
    (size : t'.size = t.size) (mask : t'.sizeMask = t.sizeMask)
    (indices : t'.entryIndices = t.entryIndices.set (p &&& t.sizeMask) (c + 1))
    (entries : t'.entries = t.entries.set c entry) (keys : t'.keyCount = t.keyCount + 1)
    (sentinels : t.entryIndexAt p = 0 ∧ t'.deletedSentinelCount = t.deletedSentinelCount ∨
      t.entryIndexAt p = 1 ∧ t'.deletedSentinelCount + 1 = t.deletedSentinelCount)
    (bounded : c ≤ t'.keyCount + t'.deletedSentinelCount)
    (room : (t'.keyCount + t'.deletedSentinelCount) * 2 ≤ t'.size) :
    Indexed computedHash t' ∧ t'.keyed.Perm ((rep, entry) :: t.keyed) := by
  have perm : t'.keyed.Perm ((rep, entry) :: t.keyed) := by
    unfold keyed
    rw [entries]
    exact filterMap_set_some notUsed (by rw [noKey]; rfl) (map_key isKey)
  have inside : c < t.entries.length := (List.getElem?_eq_some_iff.mp notUsed).1
  have indexAt := indexed.indexAt_set mask indices
  have kept (i : Nat) (filled : t.entryIndexAt i ≠ 0) : t'.entryIndexAt i ≠ 0 := by
    rw [indexAt]
    split_ifs
    · exact Nat.succ_ne_zero c
    · exact filled
  have below := indexed.mask_lt p
  have old : t.entryIndices[p &&& t.sizeMask] = t.entryIndexAt p := by
    have there := indexed.indexAt p
    rw [List.getElem?_eq_getElem (indexed.mask_lt p)] at there
    exact Option.some.inj there
  refine ⟨?_, perm⟩
  constructor
  · rw [size]
    exact indexed.power
  · rw [mask, size]
    exact indexed.mask
  · rw [indices, List.length_set, size]
    exact indexed.slots
  · rw [entries, List.length_set, size]
    exact indexed.places
  · exact room
  · have filled := indexed.filled
    rw [indices, List.countP_set (indexed.mask_lt p), old, keys]
    rcases sentinels with ⟨empty, same⟩ | ⟨sentinel, fewer⟩
    · rw [empty, same, filled]
      simp
      omega
    · rw [sentinel, filled]
      simp
      omega
  · have counted := indexed.sentinels
    rw [indices, List.countP_set (indexed.mask_lt p), old]
    have notSentinel : (decide (c + 1 = 1)) = false := decide_eq_false (by omega)
    rcases sentinels with ⟨empty, same⟩ | ⟨sentinel, fewer⟩
    · rw [empty, same, counted, notSentinel]
      simp
    · rw [sentinel, counted, notSentinel]
      simp
      omega
  · rw [perm.length_eq, List.length_cons, indexed.count, keys]
  · rw [(perm.map Prod.fst).nodup_iff, List.map_cons, List.nodup_cons]
    refine ⟨?_, indexed.unique⟩
    intro listed
    obtain ⟨x, member, same⟩ := List.mem_map.mp listed
    exact absent x member same
  · intro c' entry' here isUsed
    rw [entries, List.getElem?_set] at here
    split_ifs at here with same
    · exact same ▸ ⟨behind, bounded⟩
    · have within := indexed.within c' entry' here isUsed
      rw [keys]
      omega
  · intro c' entry' rep' here isKey'
    rw [entries, List.getElem?_set] at here
    split_ifs at here with same
    · obtain rfl := Option.some.inj here
      rw [isKey] at isKey'
      obtain rfl := Option.some.inj isKey'
      refine ⟨p, free.mono kept, ?_⟩
      rw [indexAt, if_pos rfl, same]
    · obtain ⟨i, free', reached⟩ := indexed.reached c' entry' rep' here isKey'
      have positive := (indexed.within c' entry' here (by rw [isKey']; rfl)).1
      refine ⟨i, free'.mono kept, ?_⟩
      rw [indexAt, if_neg, reached]
      intro samePlace
      rw [entryIndexAt_congr samePlace] at reached
      omega
  · intro place e here large
    rw [indices, List.getElem?_set] at here
    rw [entries]
    split_ifs at here with same
    · obtain rfl := Option.some.inj here
      refine ⟨entry, ?_, by rw [isKey]; rfl⟩
      rw [Nat.add_sub_cancel, List.getElem?_set_self inside]
    · obtain ⟨entry', there, isUsed⟩ := indexed.owned place e here large
      refine ⟨entry', ?_, isUsed⟩
      rw [List.getElem?_set, if_neg, there]
      intro same
      rw [← same, notUsed] at there
      obtain rfl := Option.some.inj there
      rw [noKey] at isUsed
      cases isUsed
  · intro place place' e large here here'
    have nowhere := indexed.not_index notUsed noKey behind
    rw [indices, List.getElem?_set, if_pos (indexed.mask_lt p)] at here here'
    split_ifs at here here' with same same'
    · exact same.symm.trans same'
    · obtain rfl := Option.some.inj here
      exact absurd here' (nowhere place')
    · obtain rfl := Option.some.inj here'
      exact absurd here (nowhere place)
    · exact indexed.single place place' e large here here'

/-- Two entries have different keys. -/
theorem Indexed.entry_unique (indexed : Indexed computedHash t) {rep : κ} {c c' : Nat}
    {entry entry' : PropertyMapEntry κ C} (here : t.entries[c]? = some entry)
    (here' : t.entries[c']? = some entry') (isKey : entry.key = some rep) (isKey' : entry'.key = some rep) :
    c = c' :=
  filterMap_unique indexed.unique here here' (map_key isKey) (map_key isKey') rfl

end

section
variable {κ C : Type} [DecidableEq κ] {computedHash : κ → UInt32} {t : PropertyMapHashTable κ C} {rep : κ}

/-- What a turn of the search comes to. -/
def verdict (t : PropertyMapHashTable κ C) (rep : κ) (i : Nat) : Option (Option (Nat × Nat)) :=
  if t.entryIndexAt i = 0 then some none
  else if (t.entryAt (t.entryIndexAt i - 1)).key = some rep then some (some (i, t.entryIndexAt i))
  else none

theorem findEntry_succ (turns i : Nat) : findEntry computedHash t rep (turns + 1) i =
    match verdict t rep i with
    | some result => some result
    | none => findEntry computedHash t rep turns (i + stride computedHash rep) := by
  rw [findEntry, verdict]
  by_cases empty : t.entryIndexAt i = 0
  · have empty' : t.entryIndexAt i = emptyEntryIndex := empty
    rw [if_pos empty, if_pos empty']
  · have filled : ¬t.entryIndexAt i = emptyEntryIndex := empty
    rw [if_neg empty, if_neg filled]
    by_cases found : (t.entryAt (t.entryIndexAt i - 1)).key = some rep
    · rw [if_pos found, if_pos found]
    · rw [if_neg found, if_neg found]

/-- The first turn that comes to something. -/
theorem findEntry_of_first {j turns i : Nat} {result : Option (Nat × Nat)} (enough : j < turns)
    (before : ∀ j' < j, verdict t rep (i + j' * stride computedHash rep) = none)
    (here : verdict t rep (i + j * stride computedHash rep) = some result) :
    findEntry computedHash t rep turns i = some result := by
  induction j generalizing i turns with
  | zero =>
    obtain ⟨turns, rfl⟩ := Nat.exists_eq_succ_of_ne_zero (Nat.ne_of_gt enough)
    rw [Nat.zero_mul, Nat.add_zero] at here
    rw [findEntry_succ, here]
  | succ j ih =>
    obtain ⟨turns, rfl⟩ := Nat.exists_eq_succ_of_ne_zero (Nat.ne_of_gt (Nat.zero_lt_of_lt enough))
    have first := before 0 (Nat.succ_pos j)
    rw [Nat.zero_mul, Nat.add_zero] at first
    rw [findEntry_succ, first]
    apply ih (Nat.lt_of_succ_lt_succ enough)
    · intro j' less
      rw [probe_succ]
      exact before (j' + 1) (Nat.succ_lt_succ less)
    · rw [probe_succ]
      exact here

theorem lookup_of_first {j : Nat} {result : Option (Nat × Nat)} (small : j < t.size)
    (before : ∀ j' < j, verdict t rep (probe computedHash rep j') = none)
    (here : verdict t rep (probe computedHash rep j) = some result) :
    lookup computedHash t rep = some result :=
  findEntry_of_first small before here

/-- A key that is not in the table: the search ends at an empty place. -/
theorem Indexed.lookup_absent (indexed : Indexed computedHash t) (absent : ∀ x ∈ t.keyed, x.1 ≠ rep) :
    lookup computedHash t rep = some none := by
  obtain ⟨j, small, empty, before⟩ := indexed.first_empty rep
  apply lookup_of_first small
  · intro j' less
    rw [verdict, if_neg (before j' less), if_neg]
    intro isKey
    obtain ⟨entry, here, isKey⟩ := keyed_of_entryAt isKey
    exact absent (rep, entry) (mem_keyed.mpr ⟨isKey, _, here⟩) rfl
  · rw [verdict, if_pos empty]

/-- A key that is in the table is found where its entry is. -/
theorem Indexed.lookup_present (indexed : Indexed computedHash t) {c : Nat} {entry : PropertyMapEntry κ C}
    (here : t.entries[c]? = some entry) (isKey : entry.key = some rep) :
    ∃ i, lookup computedHash t rep = some (some (i, c + 1)) ∧ t.entryIndexAt i = c + 1 := by
  obtain ⟨_, ⟨j, rfl, before⟩, reached⟩ := indexed.reached c entry rep here isKey
  have matched : (t.entryAt (t.entryIndexAt (probe computedHash rep j) - 1)).key = some rep := by
    rw [reached, Nat.add_sub_cancel, entryAt_of_getElem? here, isKey]
  have exists_first : ∃ j, t.entryIndexAt (probe computedHash rep j) ≠ 0 ∧
      (t.entryAt (t.entryIndexAt (probe computedHash rep j) - 1)).key = some rep :=
    ⟨j, by rw [reached]; exact Nat.succ_ne_zero c, matched⟩
  have le := Nat.find_min' exists_first ⟨by rw [reached]; exact Nat.succ_ne_zero c, matched⟩
  obtain ⟨filled, found⟩ := Nat.find_spec exists_first
  obtain ⟨entry', here', isKey'⟩ := keyed_of_entryAt found
  have same := indexed.entry_unique here here' isKey isKey'
  have small : Nat.find exists_first < t.size := by
    obtain ⟨j₀, small, empty⟩ := indexed.exists_empty rep
    by_contra large
    exact before j₀ (by omega) empty
  refine ⟨probe computedHash rep (Nat.find exists_first), ?_, by omega⟩
  apply lookup_of_first small
  · intro j' less
    have notFound := Nat.find_min exists_first less
    have filled' := before j' (by omega)
    rw [verdict, if_neg filled', if_neg]
    intro isKey
    exact notFound ⟨filled', isKey⟩
  · rw [verdict, if_neg filled, if_pos found]
    congr 3
    omega

end

end WkcBrowser.Runtime.PropertyMapHashTable
