import WkcBrowser.Storage.StorageMap
import WkcBrowser.Lib.Along

/-! When the length that a storage map keeps is that of what it has. -/

namespace WkcBrowser.Storage

open Wtf Lib

section
variable {items : Items} {key value : Str}

theorem sum_kerase {f : (_ : Str) × Str → Nat} (key : Str) (entries : List ((_ : Str) × Str)) :
    (entries.map f).sum = ((entries.kerase key).map f).sum +
      (entries.dlookup key).elim 0 fun old => f ⟨key, old⟩ := by
  induction entries with
  | nil => rfl
  | cons e entries ih =>
    by_cases here : key = e.1
    · obtain ⟨k, old⟩ := e
      obtain rfl : key = k := here
      have erased : List.kerase key (⟨key, old⟩ :: entries : List ((_ : Str) × Str)) = entries :=
        List.kerase_cons_eq rfl
      rw [erased, List.dlookup_cons_eq, List.map_cons, List.sum_cons, Nat.add_comm]
      rfl
    · rw [List.kerase_cons_ne here, List.dlookup_cons_ne _ _ here, List.map_cons, List.map_cons,
        List.sum_cons, List.sum_cons, ih, Nat.add_assoc]

theorem totalLength_erase (items : Items) (key : Str) : totalLength items =
    totalLength (items.erase key) + (items.lookup key).elim 0 fun old => key.size + old.size :=
  sum_kerase key items.entries

theorem totalLength_insert (items : Items) (key value : Str) :
    totalLength (items.insert key value) =
      totalLength (items.erase key) + (key.size + value.size) := by
  unfold totalLength
  rw [AList.entries_insert, List.map_cons, List.sum_cons, Nat.add_comm]
  rfl

theorem Str.size_lt (string : Str) : string.size < 2 ^ 31 := string.short

theorem Str.toNat_length (string : Str) : string.length.toNat = string.size := by
  have short := string.size_lt
  rw [Str.length, BitVec.toNat_ofNat]
  exact Nat.mod_eq_of_lt (by omega)

end

/-- The length that is kept is that of the contents. -/
def StorageMap.Tracked (m : StorageMap) : Prop := m.currentLength.toNat = totalLength m.map

instance (m : StorageMap) : Decidable m.Tracked :=
  inferInstanceAs (Decidable (m.currentLength.toNat = totalLength m.map))

/-- The size of a string that may be null. -/
def sizeOf (string : Option Str) : Nat := string.elim 0 Str.size

theorem toNat_lengthOf (string : Option Str) : (lengthOf string).toNat = sizeOf string := by
  cases string with
  | none => rfl
  | some string => exact string.toNat_length

namespace StorageMap

variable {m : StorageMap} {key value : Str}

/-- The part of a key that `setItem` adds. -/
def keySize (m : StorageMap) (key : Str) : Nat := if (m.map.lookup key).isNone then key.size else 0

theorem toNat_keySize : (if (m.map.lookup key).isNone then key.length else 0).toNat = m.keySize key := by
  unfold keySize
  split
  · exact key.toNat_length
  · rfl

/-- The sizes that `setItem` adds and takes away are those of the items. -/
theorem totalLength_set (m : StorageMap) (key value : Str) :
    totalLength (m.map.insert key value) + sizeOf (m.map.lookup key) =
        totalLength m.map + value.size + m.keySize key ∧
      sizeOf (m.map.lookup key) ≤ totalLength m.map ∧
      m.keySize key < 2 ^ 31 ∧ sizeOf (m.map.lookup key) < 2 ^ 31 := by
  have whole := totalLength_erase m.map key
  have inserted := totalLength_insert m.map key value
  have keyShort := key.size_lt
  unfold keySize sizeOf
  cases found : m.map.lookup key with
  | none =>
    rw [found, Option.elim_none] at whole
    simp only [Option.elim_none, Option.isNone_none, if_true]
    omega
  | some old =>
    have oldShort := old.size_lt
    rw [found, Option.elim_some] at whole
    simp only [Option.elim_some, Option.isNone_some, Bool.false_eq_true, if_false]
    omega

/-- The sizes that `setItem` reckons with do not exceed what a counter has, or the item is refused. -/
def Fits (m : StorageMap) (key value : Str) : Prop :=
  (totalLength m.map + value.size < 2 ^ 32 ∧
      (m.quotaSize ≠ noQuota ∨ totalLength (m.map.insert key value) < 2 ^ 32)) ∨
    m.quotaSize ≠ noQuota ∧
      2 ^ 32 ≤ totalLength m.map + value.size - sizeOf (m.map.lookup key)

/-- What the claim about one call of `setItem` says. -/
structure Sets (m : StorageMap) (key value : Str) : Prop where
  tracked : (m.setOwnItem key value).1.Tracked
  noUnderflow : ¬m.SetUnderflows key value
  refused : (m.setOwnItem key value).2.quotaException = true → (m.setOwnItem key value).1 = m
  withinQuota : (m.setOwnItem key value).2.quotaException = false → m.quotaSize ≠ noQuota →
    totalLength (m.setOwnItem key value).1.map * 2 ≤ m.quotaSize.toNat

/-- Whether an item is refused, by the sizes. -/
theorem setOwnItem_cases (m : StorageMap) (key value : Str) :
    let withValue := (m.currentLength.toNat + value.size) % 2 ^ 32
    let withoutOld := (2 ^ 32 - sizeOf (m.map.lookup key) + withValue) % 2 ^ 32
    let newLength := (withoutOld + m.keySize key) % 2 ^ 32
    let refused := m.quotaSize ≠ noQuota ∧ (withValue < m.currentLength.toNat ∨
      withValue < withoutOld ∨ newLength < withoutOld ∨ m.quotaSize.toNat / 2 < newLength)
    (m.SetUnderflows key value ↔ withValue < sizeOf (m.map.lookup key)) ∧
      (refused → (m.setOwnItem key value).1 = m ∧
        (m.setOwnItem key value).2.quotaException = true) ∧
      (¬refused → (m.setOwnItem key value).1.map = m.map.insert key value ∧
        (m.setOwnItem key value).1.currentLength.toNat = newLength ∧
        (m.setOwnItem key value).2.quotaException = false) := by
  have value_eq := value.toNat_length
  have old_eq := toNat_lengthOf (m.map.lookup key)
  have key_eq := @toNat_keySize m key
  dsimp only
  unfold SetUnderflows setOwnItem
  dsimp only
  generalize lengthOf (m.map.lookup key) = oldLength at *
  generalize (if (m.map.lookup key).isNone then key.length else 0) = keyLength at *
  have two : (2 : BitVec 32).toNat = 2 := rfl
  simp only [BitVec.lt_def, gt_iff_lt, BitVec.toNat_add, BitVec.toNat_sub, BitVec.toNat_udiv,
    value_eq, old_eq, key_eq, two, Bool.or_eq_true, decide_eq_true_eq, or_assoc]
  refine ⟨trivial, fun refused => ?_, fun accepted => ?_⟩
  · rw [if_pos refused]
    exact ⟨rfl, rfl⟩
  · rw [if_neg accepted]
    refine ⟨rfl, ?_, rfl⟩
    rw [BitVec.toNat_add, BitVec.toNat_sub, BitVec.toNat_add, value_eq, old_eq, key_eq]

theorem setOwnItem_quotaSize (m : StorageMap) (key value : Str) :
    (m.setOwnItem key value).1.quotaSize = m.quotaSize := by
  unfold setOwnItem
  dsimp only
  split_ifs <;> rfl

/-- A refused item leaves the map as it is. -/
theorem setOwnItem_refused (refused : (m.setOwnItem key value).2.quotaException = true) :
    (m.setOwnItem key value).1 = m := by
  obtain ⟨-, refuses, accepts⟩ := setOwnItem_cases m key value
  apply (refuses (by_contra fun accepted => ?_)).1
  have none := (accepts accepted).2.2
  rw [refused] at none
  cases none

theorem sets_iff_fits (tracked : m.Tracked) : m.Sets key value ↔ m.Fits key value := by
  obtain ⟨total, oldLe, keyShort, oldShort⟩ := totalLength_set m key value
  obtain ⟨underflows, refuses, accepts⟩ := setOwnItem_cases m key value
  have valueShort := value.size_lt
  have counter := m.currentLength.isLt
  have length : m.currentLength.toNat = totalLength m.map := tracked
  rw [length] at counter underflows refuses accepts
  by_cases limited : m.quotaSize = noQuota
  · simp only [limited, ne_eq, not_true_eq_false, false_and, not_false_eq_true, forall_const,
      false_implies] at refuses accepts
    obtain ⟨map, length, accepted⟩ := accepts
    constructor
    · intro sets
      have tracked' := sets.tracked
      unfold Tracked at tracked'
      have noUnderflow := mt underflows.mpr sets.noUnderflow
      rw [map, length] at tracked'
      refine .inl ⟨?_, .inr ?_⟩ <;> omega
    · rintro (⟨short, other | fits⟩ | ⟨other, -⟩)
      · exact absurd limited other
      · refine ⟨?_, mt underflows.mp (by omega), fun refused => ?_, fun _ other => absurd limited other⟩
        · unfold Tracked
          rw [map, length]
          omega
        · rw [accepted] at refused
          cases refused
      · exact absurd limited other
  · simp only [ne_eq, limited, not_false_eq_true, true_and] at refuses accepts
    constructor
    · intro sets
      have noUnderflow := mt underflows.mpr sets.noUnderflow
      by_cases short : totalLength m.map + value.size < 2 ^ 32
      · exact .inl ⟨short, .inl limited⟩
      · refine .inr ⟨limited, ?_⟩
        omega
    · intro fits
      have noUnderflow : ¬m.SetUnderflows key value := by
        rw [underflows]
        obtain ⟨short, -⟩ | ⟨-, large⟩ := fits <;> omega
      cases exception : (m.setOwnItem key value).2.quotaException with
      | true =>
        have same := setOwnItem_refused exception
        refine ⟨by rw [same]; exact tracked, noUnderflow, fun _ => same, fun accepted => ?_⟩
        rw [exception] at accepted
        cases accepted
      | false =>
        have notRefused := mt refuses fun both => Bool.false_ne_true (exception.symm.trans both.2)
        obtain ⟨map, length, -⟩ := accepts notRefused
        refine ⟨?_, noUnderflow, fun refused => ?_, fun _ _ => ?_⟩
        · unfold Tracked
          rw [map, length]
          omega
        · rw [exception] at refused
          cases refused
        · rw [map]
          omega

/-- A copy counts from nothing, so it is right only where there is nothing to count. -/
theorem copy_tracked_iff : m.copy.Tracked ↔ totalLength m.map = 0 := eq_comm

theorem copy_sets_iff (short : totalLength m.map < 2 ^ 32) :
    m.copy.Sets key value ↔ totalLength m.map = 0 ∧ m.Fits key value := by
  have empty : m.copy.Sets key value → totalLength m.map = 0 := by
    intro sets
    obtain ⟨total, oldLe, keyShort, oldShort⟩ := totalLength_set m.copy key value
    obtain ⟨-, refuses, accepts⟩ := setOwnItem_cases m.copy key value
    have valueShort := value.size_lt
    have same : m.copy.map = m.map := rfl
    have zero : m.copy.currentLength.toNat = 0 := rfl
    have tracked := sets.tracked
    rw [zero] at refuses accepts
    cases exception : (m.copy.setOwnItem key value).2.quotaException with
    | true =>
      rw [sets.refused exception] at tracked
      exact copy_tracked_iff.mp tracked
    | false =>
      have notRefused := mt refuses fun both => Bool.false_ne_true (exception.symm.trans both.2)
      obtain ⟨map, length, -⟩ := accepts notRefused
      unfold Tracked at tracked
      rw [map, length] at tracked
      rw [same] at total tracked oldLe
      omega
  constructor
  · intro sets
    have none := empty sets
    exact ⟨none, (sets_iff_fits (copy_tracked_iff.mpr none)).mp sets⟩
  · rintro ⟨none, fits⟩
    exact (sets_iff_fits (copy_tracked_iff.mpr none)).mpr fits

/-- What the claim about one call of `removeItem` says. -/
structure Removes (m : StorageMap) (key : Str) : Prop where
  tracked : (m.removeOwnItem key).1.Tracked
  noUnderflow : ¬m.RemoveUnderflows key

theorem removes_iff (short : totalLength m.map < 2 ^ 32) : m.Removes key ↔ m.Tracked := by
  have whole := totalLength_erase m.map key
  have keyLength := key.toNat_length
  have counter := m.currentLength.isLt
  have tracked_iff : (m.removeOwnItem key).1.Tracked ↔ m.Tracked := by
    unfold Tracked removeOwnItem
    dsimp only
    cases found : m.map.lookup key with
    | none =>
      rw [found, Option.elim_none, Nat.add_zero] at whole
      rw [whole]
      simp [lengthOf]
    | some old =>
      have oldLength := old.toNat_length
      rw [found, Option.elim_some] at whole
      simp only [Option.isSome_some, if_true, lengthOf, Option.elim_some, BitVec.toNat_sub, keyLength,
        oldLength]
      omega
  constructor
  · intro removes
    exact tracked_iff.mp removes.tracked
  · intro tracked
    refine ⟨tracked_iff.mpr tracked, ?_⟩
    rintro ⟨old, found, less⟩
    have oldLength := old.toNat_length
    rw [Option.mem_def.mp found, Option.elim_some] at whole
    unfold Tracked at tracked
    simp only [BitVec.lt_def, BitVec.toNat_sub, keyLength, oldLength] at less
    omega

theorem importItem_tracked (tracked : m.Tracked) : (m.importItem key value).Tracked ↔
    if key ∈ m.map then key.size = 0 ∧ value.size = 0
    else totalLength m.map + key.size + value.size < 2 ^ 32 := by
  have whole := totalLength_erase m.map key
  have inserted := totalLength_insert m.map key value
  have keyLength := key.toNat_length
  have valueLength := value.toNat_length
  have keyShort := key.size_lt
  have valueShort := value.size_lt
  have counter := m.currentLength.isLt
  unfold Tracked at tracked ⊢
  unfold importItem
  simp only [BitVec.toNat_add, keyLength, valueLength, tracked]
  by_cases known : key ∈ m.map
  · rw [if_pos known, if_pos known]
    omega
  · rw [AList.lookup_eq_none.mpr known, Option.elim_none, Nat.add_zero] at whole
    rw [if_neg known, if_neg known, inserted, ← whole]
    omega

end StorageMap

end WkcBrowser.Storage
