import WkcBrowser.History.BackForwardList

/-! Which runs keep the back-forward list consistent. -/

namespace WkcBrowser.History.BackForwardList

open Lib

variable {I D : Type} {s s' : BackForwardList I D} {item : I}

/-! Items that are tossed. -/

/-- The hash set has the entries, each of which is in the list once. -/
structure Hashed (s : BackForwardList I D) : Prop where
  nodup : s.entries.Nodup
  hash : ∀ item, item ∈ s.entryHash ↔ item ∈ s.entries

/-- Only the entries and the hash set differ. -/
structure SameIndex (s s' : BackForwardList I D) : Prop where
  current : s'.current = s.current
  capacity : s'.capacity = s.capacity
  enabled : s'.enabled = s.enabled
  document : s'.document = s.document
  undefined : s'.undefined = s.undefined

theorem SameIndex.refl (s : BackForwardList I D) : s.SameIndex s := ⟨rfl, rfl, rfl, rfl, rfl⟩

theorem SameIndex.trans {s'' : BackForwardList I D} (first : s.SameIndex s')
    (second : s'.SameIndex s'') : s.SameIndex s'' where
  current := second.current.trans first.current
  capacity := second.capacity.trans first.capacity
  enabled := second.enabled.trans first.enabled
  document := second.document.trans first.document
  undefined := second.undefined.trans first.undefined

variable [DecidableEq I]

theorem Hashed.toss (hashed : s.Hashed) {index : Nat} (inside : index < s.entries.length) :
    (s.toss index).Hashed ∧ (s.toss index).entries = s.entries.eraseIdx index ∧
      s.SameIndex (s.toss index) := by
  have found : s.entries[index]? = some s.entries[index] := List.getElem?_eq_getElem inside
  have tossed : s.toss index = { s with
      entries := s.entries.eraseIdx index
      entryHash := s.entryHash.erase s.entries[index] } := by
    rw [BackForwardList.toss, found]
  rw [tossed]
  refine ⟨⟨hashed.nodup.eraseIdx index, fun item => ?_⟩, rfl, ⟨rfl, rfl, rfl, rfl, rfl⟩⟩
  rw [Finset.mem_erase, hashed.hash, ← List.Nodup.erase_getElem hashed.nodup,
    hashed.nodup.mem_erase_iff]

/-- The loop keeps the first items. -/
theorem Hashed.tossLast (hashed : s.Hashed) {targetSize : Int} (fits : 0 ≤ targetSize) {rounds : Nat}
    (enough : s.entries.length ≤ rounds) :
    (tossLast targetSize rounds s).Hashed ∧
      (tossLast targetSize rounds s).entries = s.entries.take targetSize.toNat ∧
      s.SameIndex (tossLast targetSize rounds s) := by
  induction rounds generalizing s with
  | zero =>
    have none : s.entries = [] := List.length_eq_zero_iff.mp (Nat.le_zero.mp enough)
    refine ⟨hashed, ?_, SameIndex.refl s⟩
    show s.entries = s.entries.take targetSize.toNat
    rw [none, List.take_nil]
  | succ rounds ih =>
    rw [BackForwardList.tossLast]
    by_cases more : targetSize < s.entries.length
    · rw [if_pos more]
      obtain ⟨still, erased, same⟩ := hashed.toss (Nat.sub_one_lt (by omega))
      have length : (s.toss (s.entries.length - 1)).entries.length = s.entries.length - 1 := by
        rw [erased, List.length_eraseIdx_of_lt (by omega)]
      obtain ⟨last, taken, unchanged⟩ := ih still (by omega)
      refine ⟨last, ?_, same.trans unchanged⟩
      rw [taken, erased, List.eraseIdx_length_sub_one, List.dropLast_eq_take, List.take_take]
      congr 1
      omega
    · rw [if_neg more]
      refine ⟨hashed, ?_, SameIndex.refl s⟩
      rw [List.take_of_length_le (by omega)]

theorem toss_undefined (undefined : s.undefined = true) (index : Nat) :
    (s.toss index).undefined = true := by
  rw [toss]
  split
  · exact undefined
  · rfl

/-- What is undefined stays so. -/
theorem tossLast_undefined (undefined : s.undefined = true) (targetSize : Int) (rounds : Nat) :
    (tossLast targetSize rounds s).undefined = true := by
  induction rounds generalizing s with
  | zero => exact undefined
  | succ rounds ih =>
    rw [tossLast]
    split_ifs
    · exact ih (toss_undefined undefined _)
    · exact undefined

/-- The loop comes to an empty list when the size is negative. -/
theorem tossLast_negative {targetSize : Int} (negative : targetSize < 0) {rounds : Nat}
    (enough : s.entries.length < rounds) : (tossLast targetSize rounds s).undefined = true := by
  induction rounds generalizing s with
  | zero => exact absurd enough (Nat.not_lt_zero _)
  | succ rounds ih =>
    rw [tossLast, if_pos (by omega)]
    cases length : s.entries.length with
    | zero =>
      have none : s.entries[0]? = none := List.getElem?_eq_none (Nat.le_of_eq length)
      apply tossLast_undefined
      rw [toss, none]
    | succ last =>
      have inside : last < s.entries.length := by omega
      have found : s.entries[last]? = some s.entries[last] := List.getElem?_eq_getElem inside
      apply ih
      rw [Nat.add_sub_cancel, toss, found]
      show (s.entries.eraseIdx last).length < rounds
      rw [List.length_eraseIdx_of_lt inside]
      omega

/-! The index. -/

/-- The list is consistent, its items are in it once and its capacity is an `int`. -/
structure Good (s : BackForwardList I D) : Prop extends Consistent s where
  nodup : s.entries.Nodup
  small : s.capacity.toNat < 2 ^ 31

theorem toNat_NoCurrentItemIndex : NoCurrentItemIndex.toNat = 2 ^ 32 - 1 := rfl

section
omit [DecidableEq I]
variable (good : s.Good)
include good

theorem Good.hashed : s.Hashed := ⟨good.nodup, good.hash⟩

theorem Good.length_lt : s.entries.length < 2 ^ 31 := by
  have within := good.within
  have small := good.small
  omega

theorem Good.size_eq : s.size.toNat = s.entries.length := by
  have bound := good.length_lt
  rw [size, UInt32.toNat_ofNat']
  omega

theorem Good.current_ne (nonempty : s.entries ≠ []) : s.current ≠ NoCurrentItemIndex := by
  intro same
  have valid := good.valid nonempty
  have bound := good.length_lt
  rw [same, toNat_NoCurrentItemIndex] at valid
  omega

/-- The index after the current one is in the list or at its end. -/
theorem Good.next_le : (s.current + 1).toNat ≤ s.entries.length := by
  by_cases none : s.entries = []
  · rw [good.empty none]
    exact Nat.zero_le _
  · have valid := good.valid none
    have bound := good.length_lt
    rw [UInt32.toNat_add]
    have one : (1 : UInt32).toNat = 1 := rfl
    omega

end

/-! Insertion. -/

/-- There is room for an item, and the index after the current one is in the list or at its end. -/
structure Open (s : BackForwardList I D) : Prop extends Hashed s where
  defined : s.undefined = false
  room : s.entries.length < s.capacity.toNat
  next_le : (s.current + 1).toNat ≤ s.entries.length
  small : s.capacity.toNat < 2 ^ 31

/-- The item is put behind the current one. -/
def place (s : BackForwardList I D) (item : I) : BackForwardList I D :=
  { s with
    entryHash := insert item s.entryHash
    entries := s.entries.insertIdx (s.current + 1).toNat item
    current := s.current + 1 }

theorem Open.place (isOpen : s.Open) (fresh : item ∉ s.entries) : (s.place item).Good := by
  have length : (s.entries.insertIdx (s.current + 1).toNat item).length = s.entries.length + 1 :=
    List.length_insertIdx_of_le_length isOpen.next_le item
  refine ⟨⟨isOpen.defined, ?_, ?_, ?_, ?_⟩, ?_, isOpen.small⟩
  · have room := isOpen.room
    show (s.entries.insertIdx (s.current + 1).toNat item).length ≤ s.capacity.toNat
    omega
  · intro none
    have zero : (s.entries.insertIdx (s.current + 1).toNat item).length = 0 :=
      List.length_eq_zero_iff.mpr none
    omega
  · intro _
    have next := isOpen.next_le
    show (s.current + 1).toNat < (s.entries.insertIdx (s.current + 1).toNat item).length
    omega
  · intro other
    show other ∈ insert item s.entryHash ↔ other ∈ s.entries.insertIdx (s.current + 1).toNat item
    rw [Finset.mem_insert, List.mem_insertIdx isOpen.next_le, isOpen.hash]
  · show (s.entries.insertIdx (s.current + 1).toNat item).Nodup
    rw [(List.perm_insertIdx item s.entries isOpen.next_le).nodup_iff, List.nodup_cons]
    exact ⟨fresh, isOpen.nodup⟩

/-- What stays in the list keeps its order. -/
def Ordered (s s' : BackForwardList I D) : Prop :=
  (s'.entries.filter (· ∈ s.entries)).Sublist s.entries

theorem Ordered.of_sublist (sublist : s'.entries.Sublist s.entries) : s.Ordered s' :=
  List.filter_sublist.trans sublist

omit [DecidableEq I] in
theorem filter_insertIdx (keep : I → Bool) (left : keep item = false) (entries : List I) (index : Nat) :
    (entries.insertIdx index item).filter keep = entries.filter keep := by
  induction entries generalizing index with
  | nil =>
    cases index with
    | zero => simp [left]
    | succ index => rfl
  | cons first rest ih =>
    cases index with
    | zero => simp [left]
    | succ index => rw [List.insertIdx_succ_cons, List.filter_cons, List.filter_cons, ih]

theorem Ordered.place (fresh : item ∉ s.entries) (sublist : s'.entries.Sublist s.entries) :
    s.Ordered (s'.place item) := by
  show ((s'.entries.insertIdx (s'.current + 1).toNat item).filter (· ∈ s.entries)).Sublist s.entries
  rw [filter_insertIdx (fun x => decide (x ∈ s.entries)) (decide_eq_false fresh)]
  exact List.filter_sublist.trans sublist

/-- What is tossed of a list beyond some of its items, the current one among them. -/
theorem Good.keepFirst (good : s.Good) (nonempty : s.entries ≠ []) :
    let tossed := BackForwardList.tossLast (s.current + 1).toNat (s.entries.length + 1) s
    tossed.Good ∧ tossed.entries = s.entries.take (s.current + 1).toNat ∧ s.SameIndex tossed := by
  obtain ⟨hashed, taken, same⟩ := good.hashed.tossLast (Int.natCast_nonneg (s.current + 1).toNat)
    (Nat.le_add_right s.entries.length 1)
  rw [Int.toNat_natCast] at taken
  have valid := good.valid nonempty
  have bound := good.length_lt
  have next : (s.current + 1).toNat = s.current.toNat + 1 := by
    rw [UInt32.toNat_add]
    have one : (1 : UInt32).toNat = 1 := rfl
    omega
  have length := congrArg List.length taken
  rw [List.length_take] at length
  have within := good.within
  refine ⟨⟨⟨same.undefined.trans good.defined, ?_, ?_, ?_, hashed.hash⟩, hashed.nodup, ?_⟩, taken, same⟩
  · rw [same.capacity]
    omega
  · intro none
    rw [none, List.length_nil] at length
    omega
  · intro _
    rw [same.current]
    omega
  · rw [same.capacity]
    exact good.small

/-- The first item of a full list is tossed, and the index follows. -/
theorem Good.toss_first (good : s.Good) (full : s.entries.length = s.capacity.toNat)
    (nonempty : s.entries ≠ []) :
    { s.toss 0 with current := s.current - 1 }.Open ∧
      (s.toss 0).entries.Sublist s.entries := by
  have positive := List.length_pos_iff.mpr nonempty
  obtain ⟨hashed, erased, same⟩ := good.hashed.toss positive
  have length : (s.toss 0).entries.length = s.entries.length - 1 := by
    rw [erased, List.length_eraseIdx_of_lt positive]
  have valid := good.valid nonempty
  refine ⟨⟨⟨hashed.nodup, hashed.hash⟩, same.undefined.trans good.defined, ?_, ?_, ?_⟩, ?_⟩
  · show (s.toss 0).entries.length < (s.toss 0).capacity.toNat
    rw [same.capacity]
    omega
  · show (s.current - 1 + 1).toNat ≤ (s.toss 0).entries.length
    rw [UInt32.sub_add_cancel]
    omega
  · show (s.toss 0).capacity.toNat < 2 ^ 31
    rw [same.capacity]
    exact good.small
  · rw [erased]
    exact List.eraseIdx_sublist s.entries 0

/-- What is tossed of the forward list. -/
theorem Good.tossForward (good : s.Good) {removeForwardList : Bool} {tossed : BackForwardList I D}
    (shape : (if removeForwardList && s.current ≠ NoCurrentItemIndex then
      BackForwardList.tossLast (s.current + 1).toNat (s.entries.length + 1) s else s) = tossed) :
    tossed.Good ∧ tossed.entries.Sublist s.entries ∧ s.SameIndex tossed ∧
      (removeForwardList = true → tossed.entries.length = (s.current + 1).toNat) ∧
      (removeForwardList = false → tossed = s) := by
  by_cases cut : (removeForwardList && decide (s.current ≠ NoCurrentItemIndex)) = true
  · rw [if_pos cut] at shape
    obtain ⟨remove, current⟩ := Bool.and_eq_true_iff.mp cut
    have nonempty : s.entries ≠ [] := fun none =>
      of_decide_eq_true current (good.empty none)
    obtain ⟨still, taken, same⟩ := good.keepFirst nonempty
    rw [shape] at still taken same
    refine ⟨still, ?_, same, fun _ => ?_, fun keep => absurd (remove.symm.trans keep) nofun⟩
    · rw [taken]
      exact List.take_sublist _ _
    · rw [taken, List.length_take_of_le good.next_le]
  · rw [if_neg cut] at shape
    rw [← shape]
    refine ⟨good, List.Sublist.refl _, SameIndex.refl s, fun remove => ?_, fun _ => rfl⟩
    have noCurrent : s.current = NoCurrentItemIndex := by
      by_contra some
      exact cut (by rw [remove, decide_eq_true some]; rfl)
    have none : s.entries = [] := by
      by_contra nonempty
      exact good.current_ne nonempty noCurrent
    rw [noCurrent, none]
    rfl

/-- An item is inserted unless the list is full and its first item is to stay. -/
theorem Good.insert {old : BackForwardList I D} (good : s.Good) (before : s.entries.Sublist old.entries)
    (fresh : item ∉ old.entries) (removeForwardList : Bool)
    (room : removeForwardList = false → s.enabled = true → s.entries.length = s.capacity.toNat →
      s.current = 0 → s.capacity.toNat < 2) :
    (s.insertItemAfterCurrent item removeForwardList).Good ∧
      old.Ordered (s.insertItemAfterCurrent item removeForwardList) := by
  rw [insertItemAfterCurrent]
  by_cases off : (decide (s.capacity = 0) || !s.enabled) = true
  · rw [if_pos off]
    exact ⟨good, .of_sublist before⟩
  · have enabled : s.enabled = true := by
      cases on : s.enabled with
      | false => exact absurd (by rw [on, Bool.not_false, Bool.or_true]) off
      | true => rfl
    rw [if_neg off]
    obtain ⟨tossed, shape⟩ : ∃ tossed, (if removeForwardList && s.current ≠ NoCurrentItemIndex then
      tossLast (s.current + 1).toNat (s.entries.length + 1) s else s) = tossed := ⟨_, rfl⟩
    rw [shape]
    dsimp only
    obtain ⟨still, sublist, same, cut, keep⟩ := good.tossForward shape
    have some : 0 < tossed.capacity.toNat := by
      by_contra none
      have zero : s.capacity = 0 := by
        rw [← UInt32.toNat_inj, ← same.capacity]
        exact Nat.eq_zero_of_not_pos none
      exact off (by rw [decide_eq_true zero, Bool.true_or])
    have full_iff : tossed.size = tossed.capacity ↔
        tossed.entries.length = tossed.capacity.toNat := by
      rw [← UInt32.toNat_inj, still.size_eq]
    by_cases evicted : (decide (tossed.size = tossed.capacity) &&
        (decide (tossed.current ≠ 0) || decide (tossed.capacity = 1))) = true
    · rw [if_pos evicted]
      have full := full_iff.mp (of_decide_eq_true (Bool.and_eq_true_iff.mp evicted).1)
      have nonempty : tossed.entries ≠ [] := List.length_pos_iff.mp (by omega)
      obtain ⟨isOpen, shorter⟩ := still.toss_first full nonempty
      have absent : item ∉ (tossed.toss 0).entries := fun member =>
        fresh (before.subset (sublist.subset (shorter.subset member)))
      exact ⟨isOpen.place absent, Ordered.place fresh (shorter.trans (sublist.trans before))⟩
    · rw [if_neg evicted]
      have absent : item ∉ tossed.entries := fun member =>
        fresh (before.subset (sublist.subset member))
      have roomy : tossed.entries.length < tossed.capacity.toNat := by
        by_contra beyond
        have within := still.within
        have full : tossed.entries.length = tossed.capacity.toNat := by omega
        -- The list is full, the first item is current, and more than one is to be kept.
        simp only [Bool.and_eq_true, Bool.or_eq_true, decide_eq_true_eq, full_iff.mpr full,
          true_and, not_or, not_not] at evicted
        obtain ⟨first, several⟩ := evicted
        have two : tossed.capacity.toNat ≠ 1 := fun one =>
          several (UInt32.toNat_inj.mp one)
        cases removeForwardList with
        | true =>
          have length := cut rfl
          rw [← same.current, first] at length
          have one : (0 + 1 : UInt32).toNat = 1 := rfl
          omega
        | false =>
          have kept := keep rfl
          rw [kept] at full first some two
          have less := room rfl enabled full first
          omega
      have isOpen : tossed.Open :=
        ⟨still.hashed, still.defined, roomy, still.next_le, still.small⟩
      exact ⟨isOpen.place absent, Ordered.place fresh (sublist.trans before)⟩

/-! Removal. -/

/-- What is removed from the list leaves its items in order, and the capacity and the documents. -/
structure Removes (s s' : BackForwardList I D) : Prop where
  good : s'.Good
  sublist : s'.entries.Sublist s.entries
  capacity : s'.capacity = s.capacity
  enabled : s'.enabled = s.enabled
  document : s'.document = s.document

omit [DecidableEq I] in
theorem Good.removes_refl (good : s.Good) : s.Removes s :=
  ⟨good, List.Sublist.refl _, rfl, rfl, rfl⟩

omit [DecidableEq I] in
/-- The index may be moved to an item of a good list. -/
theorem Good.moveTo (good : s.Good) {index : UInt32} (inside : index.toNat < s.entries.length) :
    { s with current := index }.Good where
  defined := good.defined
  within := good.within
  empty none := by
    have length : s.entries.length = 0 := List.length_eq_zero_iff.mpr none
    omega
  valid _ := inside
  hash := good.hash
  nodup := good.nodup
  small := good.small

omit [DecidableEq I] in
theorem Good.goBack (good : s.Good) (exists_back : s.backItem.isSome = true) : s.goBack.Good := by
  rw [backItem] at exists_back
  split at exists_back
  · next moves =>
    rw [Bool.and_eq_true, decide_eq_true_eq, decide_eq_true_eq] at moves
    have positive : s.current > 0 := UInt32.pos_iff_ne_zero.mpr moves.1
    obtain ⟨item, found⟩ := Option.isSome_iff_exists.mp exists_back
    obtain ⟨inside, -⟩ := List.getElem?_eq_some_iff.mp found
    rw [BackForwardList.goBack, if_pos positive]
    exact good.moveTo inside
  · cases exists_back

omit [DecidableEq I] in
theorem Good.goForward (good : s.Good) (exists_forward : s.forwardItem.isSome = true) :
    s.goForward.Good := by
  rw [forwardItem] at exists_forward
  split at exists_forward
  · next moves =>
    rw [Bool.and_eq_true, decide_eq_true_eq, decide_eq_true_eq] at moves
    obtain ⟨item, found⟩ := Option.isSome_iff_exists.mp exists_forward
    obtain ⟨inside, -⟩ := List.getElem?_eq_some_iff.mp found
    rw [BackForwardList.goForward, if_pos moves.2]
    exact good.moveTo inside
  · cases exists_forward

theorem Good.goToItem (good : s.Good) (item : Option I) : (s.goToItem item).Good := by
  cases item with
  | none => exact good
  | some item =>
    rw [BackForwardList.goToItem]
    split_ifs with inside
    · apply good.moveTo
      have bound := good.length_lt
      rw [UInt32.toNat_ofNat']
      omega
    · exact good

/-- An item is tossed and the index goes on to an item that is left. -/
theorem Good.toss (good : s.Good) {index : Nat} (inside : index < s.entries.length)
    {current : UInt32} (single : s.entries.length = 1 → current = NoCurrentItemIndex)
    (several : s.entries.length ≠ 1 → current.toNat < s.entries.length - 1) :
    s.Removes { s.toss index with current } := by
  obtain ⟨hashed, erased, same⟩ := good.hashed.toss inside
  have length : (s.toss index).entries.length = s.entries.length - 1 := by
    rw [erased, List.length_eraseIdx_of_lt inside]
  refine ⟨⟨⟨same.undefined.trans good.defined, ?_, ?_, ?_, hashed.hash⟩, hashed.nodup, ?_⟩, ?_,
    same.capacity, same.enabled, same.document⟩
  · have within := good.within
    show (s.toss index).entries.length ≤ (s.toss index).capacity.toNat
    rw [same.capacity]
    omega
  · intro none
    have zero : (s.toss index).entries.length = 0 := List.length_eq_zero_iff.mpr none
    exact single (by omega)
  · intro some
    have positive : 0 < (s.toss index).entries.length := List.length_pos_iff.mpr some
    have valid := several (by omega)
    show current.toNat < (s.toss index).entries.length
    omega
  · show (s.toss index).capacity.toNat < 2 ^ 31
    rw [same.capacity]
    exact good.small
  · show (s.toss index).entries.Sublist s.entries
    rw [erased]
    exact List.eraseIdx_sublist s.entries index

theorem Good.removeItem (good : s.Good) (item : Option I) : s.Removes (s.removeItem item) := by
  cases item with
  | none => exact good.removes_refl
  | some item =>
    rw [BackForwardList.removeItem]
    dsimp only
    by_cases inside : s.entries.idxOf item < s.entries.length
    · obtain ⟨hashed, erased, same⟩ := good.hashed.toss inside
      have nonempty : s.entries ≠ [] := List.length_pos_iff.mp (by omega)
      have valid := good.valid nonempty
      have bound := good.length_lt
      have length : (s.toss (s.entries.idxOf item)).entries.length = s.entries.length - 1 := by
        rw [erased, List.length_eraseIdx_of_lt inside]
      have size : (s.toss (s.entries.idxOf item)).size.toNat = s.entries.length - 1 := by
        rw [BackForwardList.size, UInt32.toNat_ofNat', length]
        omega
      have keeps : { s.toss (s.entries.idxOf item) with current := s.current } =
          s.toss (s.entries.idxOf item) := by
        rw [← same.current]
      rw [if_pos inside]
      by_cases before : s.current.toNat < s.entries.idxOf item
      · rw [if_pos (by rw [decide_eq_true before, Bool.or_true]), ← keeps]
        exact good.toss inside (fun one => absurd before (by omega)) fun _ => by omega
      · have noSentinel : ¬(decide (s.current = NoCurrentItemIndex) ||
            decide (s.current.toNat < s.entries.idxOf item)) = true := by
          rw [decide_eq_false before, decide_eq_false (good.current_ne nonempty)]
          exact nofun
        rw [if_neg noSentinel]
        by_cases after : s.current.toNat > s.entries.idxOf item
        · have back : (s.current - 1).toNat = s.current.toNat - 1 := by
            have one : (1 : UInt32).toNat = 1 := rfl
            rw [UInt32.toNat_sub_of_le _ _ (UInt32.le_iff_toNat_le.mpr (by omega)), one]
          rw [if_pos after]
          exact good.toss inside (fun one => absurd after (by omega)) fun _ => by omega
        · rw [if_neg after]
          by_cases last : s.current ≥ (s.toss (s.entries.idxOf item)).size
          · have position := UInt32.le_iff_toNat_le.mp last
            rw [if_pos last]
            apply good.toss inside
            · intro one
              have zero : (s.toss (s.entries.idxOf item)).size = 0 := by
                rw [← UInt32.toNat_inj, size, one]
                rfl
              exact if_neg (not_not.mpr zero)
            · intro several
              have some : (s.toss (s.entries.idxOf item)).size ≠ 0 := by
                intro zero
                rw [zero] at size
                have none : (0 : UInt32).toNat = 0 := rfl
                omega
              have one : (1 : UInt32).toNat = 1 := rfl
              rw [if_pos some, UInt32.toNat_sub_of_le _ _ (UInt32.le_iff_toNat_le.mpr (by omega)),
                size, one]
              omega
          · rw [ge_iff_le, UInt32.le_iff_toNat_le, size] at last
            rw [if_neg (by rw [ge_iff_le, UInt32.le_iff_toNat_le, size]; exact last), ← keeps]
            exact good.toss inside (fun one => absurd last (by omega)) fun _ => by omega
    · rw [if_neg inside]
      exact good.removes_refl

/-! Capacities. -/

/-- An `int` as an `unsigned`. -/
theorem toInt_cond (size : Int32) : size.toInt =
    if size.toUInt32.toNat < 2 ^ 31 then (size.toUInt32.toNat : Int)
    else size.toUInt32.toNat - 2 ^ 32 := by
  have value : size.toInt = if 2 * size.toUInt32.toNat < 2 ^ 32 then (size.toUInt32.toNat : Int)
      else (size.toUInt32.toNat : Int) - (2 ^ 32 : Nat) := BitVec.toInt_eq_toNat_cond _
  rw [value]
  split_ifs <;> omega

theorem Good.setCapacity (good : s.Good) {size : Int32} (fits : 0 ≤ size.toInt) :
    (s.setCapacity size).Good ∧ (s.setCapacity size).entries.Sublist s.entries := by
  obtain ⟨tossed, shape⟩ : ∃ tossed, BackForwardList.tossLast size.toInt (s.entries.length + 1) s =
    tossed := ⟨_, rfl⟩
  obtain ⟨hashed, taken, same⟩ := good.hashed.tossLast fits (Nat.le_add_right s.entries.length 1)
  rw [shape] at hashed taken same
  have length := congrArg List.length taken
  rw [List.length_take] at length
  have value := toInt_cond size
  have bound := good.length_lt
  have unsigned := size.toUInt32.toNat_lt
  have capacity : size.toInt.toNat = size.toUInt32.toNat ∧ size.toUInt32.toNat < 2 ^ 31 := by
    split_ifs at value <;> omega
  obtain ⟨capacity, small⟩ := capacity
  have last : tossed.entries ≠ [] → (tossed.size - 1).toNat = tossed.entries.length - 1 := by
    intro some
    have positive := List.length_pos_iff.mpr some
    have one : (1 : UInt32).toNat = 1 := rfl
    have count : tossed.size.toNat = tossed.entries.length := by
      rw [BackForwardList.size, UInt32.toNat_ofNat']
      omega
    rw [UInt32.toNat_sub_of_le _ _ (UInt32.le_iff_toNat_le.mpr (by omega)), count, one]
  have moved : ∀ current : UInt32, (tossed.entries = [] → current = NoCurrentItemIndex) →
      (tossed.entries ≠ [] → current.toNat < tossed.entries.length) →
        { tossed with current, capacity := size.toUInt32 }.Good := fun current empty valid =>
    ⟨⟨same.undefined.trans good.defined, by
      show tossed.entries.length ≤ size.toUInt32.toNat
      omega, empty, valid, hashed.hash⟩, hashed.nodup, small⟩
  have sublist : tossed.entries.Sublist s.entries := by
    rw [taken]
    exact List.take_sublist _ _
  rw [BackForwardList.setCapacity, shape]
  dsimp only
  split_ifs with zero beyond
  · refine ⟨moved _ (fun _ => rfl) fun some => ?_, sublist⟩
    have positive := List.length_pos_iff.mpr some
    rw [zero] at capacity
    have none : (0 : Int32).toInt.toNat = 0 := rfl
    rw [zero, none] at length
    omega
  · refine ⟨moved _ (fun none => ?_) fun some => ?_, sublist⟩
    · rw [BackForwardList.size, none]
      rfl
    · have positive := List.length_pos_iff.mpr some
      have value := last some
      show (tossed.size - 1).toNat < tossed.entries.length
      omega
  · refine ⟨moved _ (fun none => ?_) fun some => ?_, sublist⟩
    · have positive : 0 < size.toInt := lt_of_le_of_ne fits fun same =>
        zero (Int32.toInt_inj.mp same.symm)
      rw [none, List.length_nil] at length
      have empty : s.entries = [] := List.length_eq_zero_iff.mp (by omega)
      exact same.current.trans (good.empty empty)
    · have value := last some
      have positive := List.length_pos_iff.mpr some
      rw [gt_iff_lt, UInt32.lt_iff_toNat_lt, value] at beyond
      show tossed.current.toNat < tossed.entries.length
      omega

theorem Good.setEnabled (good : s.Good) (enabled : Bool) :
    (s.setEnabled enabled).Good ∧ (s.setEnabled enabled).entries.Sublist s.entries := by
  have switched : { s with enabled }.Good :=
    ⟨⟨good.defined, good.within, good.empty, good.valid, good.hash⟩, good.nodup, good.small⟩
  have fits : 0 ≤ s.capacity.toInt32.toInt := by
    have value := toInt_cond s.capacity.toInt32
    rw [UInt32.toUInt32_toInt32, if_pos good.small] at value
    omega
  rw [BackForwardList.setEnabled]
  split_ifs
  · exact ⟨switched, List.Sublist.refl _⟩
  · have emptied := @Good.setCapacity _ _ _ _ switched 0 (Int.le_refl 0)
    have restored := emptied.1.setCapacity fits
    exact ⟨restored.1, restored.2.trans emptied.2⟩

theorem setCapacity_negative {size : Int32} (negative : size.toInt < 0) :
    (s.setCapacity size).undefined = true := by
  have tossed := @tossLast_negative _ _ s _ _ negative _ (Nat.lt_succ_self s.entries.length)
  rw [setCapacity]
  dsimp only
  split_ifs
  · exact tossed
  · exact tossed
  · exact tossed

/-! States that are pushed. -/

omit [DecidableEq I] in
theorem forwardItem_eq_some {next : I} (good : s.Good) (forward : s.forwardItem = some next) :
    s.current.toNat + 1 < s.entries.length ∧ s.entries[s.current.toNat + 1]? = some next := by
  rw [forwardItem] at forward
  split at forward
  · next moves =>
    obtain ⟨inside, -⟩ := List.getElem?_eq_some_iff.mp forward
    have nonempty : s.entries ≠ [] := List.length_pos_iff.mp (by omega)
    have valid := good.valid nonempty
    have bound := good.length_lt
    have succ : (s.current + 1).toNat = s.current.toNat + 1 := by
      rw [UInt32.toNat_add]
      have one : (1 : UInt32).toNat = 1 := rfl
      omega
    rw [succ] at inside forward
    exact ⟨inside, forward⟩
  · cases forward

/-- The next item is removed without a change of the index. -/
theorem removeItem_forwardItem {next : I} (good : s.Good) (forward : s.forwardItem = some next) :
    (s.removeItem (some next)).entries.length < s.entries.length ∧
      (s.removeItem (some next)).current = s.current := by
  obtain ⟨inside, found⟩ := forwardItem_eq_some good forward
  obtain ⟨within, value⟩ := List.getElem?_eq_some_iff.mp found
  have index : s.entries.idxOf next = s.current.toNat + 1 := by
    rw [← value, good.nodup.idxOf_getElem]
  have before : (decide (s.current = NoCurrentItemIndex) ||
      decide (s.current.toNat < s.entries.idxOf next)) = true := by
    rw [index, decide_eq_true (Nat.lt_succ_self _), Bool.or_true]
  obtain ⟨hashed, erased, same⟩ := good.hashed.toss (index ▸ inside)
  have removed : s.removeItem (some next) = s.toss (s.entries.idxOf next) := by
    rw [removeItem]
    dsimp only
    rw [if_pos (index ▸ inside), if_pos before]
  rw [removed, same.current, erased, List.length_eraseIdx_of_lt (index ▸ inside)]
  exact ⟨by omega, rfl⟩

/-- The loop removes items, or there is none of the document at its start. -/
theorem removeForwardItems_cases [DecidableEq D] (good : s.Good) (newItemDocument : Option D)
    {rounds : Nat} (enough : s.entries.length ≤ rounds) :
    s.Removes (removeForwardItems newItemDocument rounds s) ∧
      ((removeForwardItems newItemDocument rounds s).entries.length < s.entries.length ∨
        removeForwardItems newItemDocument rounds s = s ∧
          ∀ next, s.forwardItem = some next → s.document next ≠ newItemDocument) := by
  induction rounds generalizing s with
  | zero =>
    refine ⟨good.removes_refl, .inr ⟨rfl, fun next forward => ?_⟩⟩
    have inside := (forwardItem_eq_some good forward).1
    omega
  | succ rounds ih =>
    rw [removeForwardItems]
    cases forward : s.forwardItem with
    | none => exact ⟨good.removes_refl, .inr ⟨rfl, nofun⟩⟩
    | some item =>
      dsimp only
      split_ifs with other
      · refine ⟨good.removes_refl, .inr ⟨rfl, fun next same => ?_⟩⟩
        rw [← Option.some.inj same]
        exact other
      · obtain ⟨shorter, -⟩ := removeItem_forwardItem good forward
        have removes := good.removeItem (some item)
        obtain ⟨later, -⟩ := ih removes.good (by omega)
        have length := later.sublist.length_le
        refine ⟨⟨later.good, later.sublist.trans removes.sublist, later.capacity.trans removes.capacity,
          later.enabled.trans removes.enabled, later.document.trans removes.document⟩, .inl ?_⟩
        omega

omit [DecidableEq I] in
theorem Good.setDocument (good : s.Good) (document : I → Option D) : { s with document }.Good :=
  ⟨⟨good.defined, good.within, good.empty, good.valid, good.hash⟩, good.nodup, good.small⟩

omit [DecidableEq I] in
theorem exists_forwardItem (good : s.Good) (first : s.current = 0) (two : 2 ≤ s.entries.length) :
    ∃ next, s.forwardItem = some next := by
  have size := good.size_eq
  have one : (1 : UInt32).toNat = 1 := rfl
  have none : (0 : UInt32).toNat = 0 := rfl
  have nonzero : s.size ≠ 0 := by
    intro zero
    rw [zero] at size
    omega
  have less : s.current < s.size - 1 := by
    rw [UInt32.lt_iff_toNat_lt, first, UInt32.toNat_sub_of_le _ _
      (UInt32.le_iff_toNat_le.mpr (by omega)), size, one, none]
    omega
  have inside : (s.current + 1).toNat < s.entries.length := by
    rw [first]
    exact two
  refine ⟨s.entries[(s.current + 1).toNat], ?_⟩
  rw [forwardItem, if_pos (by rw [decide_eq_true nonzero, decide_eq_true less]; rfl)]
  exact List.getElem?_eq_getElem inside

/-- A full list whose first two items stay has one item more than its capacity afterwards. -/
theorem insert_overflows (enabled : s.enabled = true) (full : s.entries.length = s.capacity.toNat)
    (first : s.current = 0) (two : 2 ≤ s.entries.length) :
    (s.insertItemAfterCurrent item false).entries.length = s.capacity.toNat + 1 ∧
      (s.insertItemAfterCurrent item false).capacity = s.capacity := by
  have some : s.capacity ≠ 0 := by
    intro zero
    rw [zero] at full
    have none : (0 : UInt32).toNat = 0 := rfl
    omega
  have several : s.capacity ≠ 1 := by
    intro single
    rw [single] at full
    have one : (1 : UInt32).toNat = 1 := rfl
    omega
  have on : ¬(decide (s.capacity = 0) || !s.enabled) = true := by
    rw [decide_eq_false some, enabled]
    exact nofun
  have stays : ¬(decide (s.size = s.capacity) &&
      (decide (s.current ≠ 0) || decide (s.capacity = 1))) = true := by
    rw [decide_eq_false several, decide_eq_false (not_not.mpr first), Bool.or_false, Bool.and_false]
    exact nofun
  have placed : s.insertItemAfterCurrent item false = s.place item := by
    rw [insertItemAfterCurrent, if_neg on, Bool.false_and, if_neg Bool.false_ne_true]
    dsimp only
    rw [if_neg stays]
    rfl
  have next : (s.current + 1).toNat ≤ s.entries.length := by
    rw [first]
    exact Nat.le_of_succ_le two
  rw [placed]
  refine ⟨?_, rfl⟩
  show (s.entries.insertIdx (s.current + 1).toNat item).length = s.capacity.toNat + 1
  rw [List.length_insertIdx_of_le_length next, full]

section
variable [DecidableEq D]

theorem Good.pushStateItem (good : s.Good) (fresh : item ∉ s.entries)
    (current : s.currentItem.isSome = true) (room : ¬s.Overflows item) :
    (s.pushStateItem item).Good ∧ s.Ordered (s.pushStateItem item) := by
  obtain ⟨removes, cases⟩ := removeForwardItems_cases good (s.document item) (Nat.le_refl _)
  have inserted := removes.good.insert removes.sublist fresh false fun _ enabled full first => by
    by_contra several
    rw [removes.enabled] at enabled
    rw [removes.capacity] at full several
    rcases cases with shorter | ⟨same, stays⟩
    · have within := good.within
      omega
    · rw [same] at full first
      obtain ⟨next, forward⟩ := exists_forwardItem good first (by omega)
      exact room ⟨enabled, full, first, next, forward, stays next forward⟩
  obtain ⟨item', found⟩ := Option.isSome_iff_exists.mp current
  rw [BackForwardList.pushStateItem, found]
  dsimp only
  split_ifs
  · exact ⟨inserted.1.setDocument _, inserted.2⟩
  · exact inserted

theorem pushStateItem_overflows (good : s.Good) (overflows : s.Overflows item) :
    (s.pushStateItem item).entries.length = (s.pushStateItem item).capacity.toNat + 1 := by
  obtain ⟨enabled, full, first, next, forward, other⟩ := overflows
  have two := (forwardItem_eq_some good forward).1
  obtain ⟨-, shorter | ⟨same, -⟩⟩ :=
    removeForwardItems_cases good (s.document item) (Nat.le_refl _)
  · obtain ⟨rounds, length⟩ : ∃ rounds, s.entries.length = rounds + 1 :=
      ⟨s.entries.length - 1, by omega⟩
    rw [length, removeForwardItems, forward] at shorter
    dsimp only at shorter
    rw [if_pos other, length] at shorter
    exact absurd shorter (Nat.lt_irrefl _)
  · obtain ⟨longer, capacity⟩ := @insert_overflows _ _ s item _ enabled full first (by omega)
    rw [BackForwardList.pushStateItem, same]
    split
    · split_ifs
      · show (s.insertItemAfterCurrent item false).entries.length =
          (s.insertItemAfterCurrent item false).capacity.toNat + 1
        rw [longer, capacity]
      · rw [longer, capacity]
    · show (s.insertItemAfterCurrent item false).entries.length =
        (s.insertItemAfterCurrent item false).capacity.toNat + 1
      rw [longer, capacity]

theorem pushStateItem_undefined (none : s.currentItem = none) :
    (s.pushStateItem item).undefined = true := by
  rw [pushStateItem, none]

/-! Runs. -/

/-- A safe operation keeps the list good and what stays in order. -/
theorem Good.step (good : s.Good) {operation : Operation I D} (admitted : s.Admits operation)
    (safe : s.Safe operation) : (s.step operation).Good ∧ s.Ordered (s.step operation) := by
  have whole : s.entries.Sublist s.entries := List.Sublist.refl _
  cases operation with
  | addItem item => exact good.insert whole admitted true nofun
  | pushStateItem newItem => exact good.pushStateItem admitted safe.1 safe.2
  | goBack =>
    refine ⟨good.goBack admitted, .of_sublist ?_⟩
    show s.goBack.entries.Sublist s.entries
    rw [BackForwardList.goBack]
    split_ifs <;> exact whole
  | goForward =>
    refine ⟨good.goForward admitted, .of_sublist ?_⟩
    show s.goForward.entries.Sublist s.entries
    rw [BackForwardList.goForward]
    split_ifs <;> exact whole
  | goToItem item =>
    refine ⟨good.goToItem item, .of_sublist ?_⟩
    show (s.goToItem item).entries.Sublist s.entries
    cases item with
    | none => exact whole
    | some item =>
      rw [BackForwardList.goToItem]
      split_ifs <;> exact whole
  | removeItem item =>
    have removes := good.removeItem item
    exact ⟨removes.good, .of_sublist removes.sublist⟩
  | setCapacity size =>
    have set := good.setCapacity safe
    exact ⟨set.1, .of_sublist set.2⟩
  | setEnabled enabled =>
    have set := good.setEnabled enabled
    exact ⟨set.1, .of_sublist set.2⟩
  | setDocument item document => exact ⟨good.setDocument _, .of_sublist whole⟩

/-- An operation keeps the list consistent exactly when it is safe. -/
theorem Good.keeps_iff (good : s.Good) {operation : Operation I D} (admitted : s.Admits operation) :
    s.Keeps operation ↔ s.Safe operation := by
  constructor
  · rintro ⟨consistent, -⟩
    cases operation with
    | pushStateItem newItem =>
      constructor
      · cases current : s.currentItem with
        | some item => rfl
        | none =>
          have undefined : (s.pushStateItem newItem).undefined = true := pushStateItem_undefined current
          exact absurd (undefined.symm.trans consistent.defined) nofun
      · intro overflows
        have beyond := pushStateItem_overflows good overflows
        have within : (s.pushStateItem newItem).entries.length ≤
          (s.pushStateItem newItem).capacity.toNat := consistent.within
        omega
    | setCapacity size =>
      show 0 ≤ size.toInt
      by_contra negative
      have undefined : (s.setCapacity size).undefined = true :=
        setCapacity_negative (Int.lt_of_not_ge negative)
      exact absurd (undefined.symm.trans consistent.defined) nofun
    | _ => trivial
  · intro safe
    have kept := good.step admitted safe
    exact ⟨kept.1.toConsistent, kept.2⟩

/-- A new list is kept consistent by a run exactly when all its operations are safe. -/
theorem keeps_along_iff (document : I → Option D) (operations : List (Operation I D))
    (admitted : Along step Admits { document } operations) :
    Along step Keeps { document } operations ↔ Along step Safe { document } operations := by
  have start : ({ document } : BackForwardList I D).Good :=
    ⟨⟨rfl, Nat.zero_le _, fun _ => rfl, fun some => absurd rfl some, fun _ => by
      simp⟩, List.nodup_nil, (by decide : DefaultCapacity.toNat < 2 ^ 31)⟩
  exact along_iff Good (fun s operation good admitted => good.keeps_iff admitted)
    (fun s operation good admitted keeps =>
      (good.step admitted ((good.keeps_iff admitted).mp keeps)).1) _ _ start admitted

end

/-- Two items are added, the first one is gone back to, and another one is added. -/
theorem keeps_along_iff_replaced :
    Along step Keeps ({ document := some } : BackForwardList Nat Nat)
      [.setCapacity 2, .addItem 0, .addItem 1, .goBack, .addItem 2] ↔
        Along step Safe ({ document := some } : BackForwardList Nat Nat)
          [.setCapacity 2, .addItem 0, .addItem 1, .goBack, .addItem 2] :=
  keeps_along_iff some _
    ⟨trivial, List.not_mem_nil, (by decide : (1 : Nat) ∉ [0]), rfl, (by decide : (2 : Nat) ∉ [0, 1]),
      trivial⟩

/-- A state is pushed on a full list whose first item is current. -/
theorem not_keeps : ¬∀ operations : List (Operation Nat Nat),
    Along step Admits ({ document := some } : BackForwardList Nat Nat) operations →
      Along step Keeps ({ document := some } : BackForwardList Nat Nat) operations := by
  intro keeps
  have run := keeps [.setCapacity 2, .addItem 0, .addItem 1, .goBack, .pushStateItem 2]
    ⟨trivial, List.not_mem_nil, (by decide : (1 : Nat) ∉ [0]), rfl, (by decide : (2 : Nat) ∉ [0, 1]),
      trivial⟩
  have within := run.2.2.2.2.1.1.within
  exact absurd within (by decide)

end WkcBrowser.History.BackForwardList
