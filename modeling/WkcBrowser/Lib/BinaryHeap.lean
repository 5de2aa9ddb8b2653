import Mathlib.Logic.Function.Basic
import Mathlib.Order.Basic
import Mathlib.Order.Lattice
import Mathlib.Order.Nat

/-! Binary heaps whose elements know where they are. Elements are moved by writing them to a place, and
every write tells the element its place. The comparison has to agree with a key only on the elements of
the heap. -/

namespace WkcBrowser.Lib

structure BinaryHeap (α : Type) where
  entries : Nat → α
  index : α → Option Nat

namespace BinaryHeap

def parent (i : Nat) : Nat := (i - 1) / 2

section
variable {α : Type}

/-- The heap holds the members, each at its place. -/
structure Holds (h : BinaryHeap α) (size : Nat) (member : α → Prop) : Prop where
  members : ∀ a, member a ↔ ∃ i < size, h.entries i = a
  indexed : ∀ i < size, h.index (h.entries i) = some i

/-- But for a hole and the element that belongs there the heap holds the members. -/
structure Sifting (h : BinaryHeap α) (size hole : Nat) (e : α) (member : α → Prop) : Prop where
  within : hole < size
  members : ∀ a, member a ↔ a = e ∨ ∃ i < size, i ≠ hole ∧ h.entries i = a
  indexed : ∀ i < size, i ≠ hole → h.index (h.entries i) = some i
  apart : ∀ i < size, i ≠ hole → h.entries i ≠ e

/-- Nothing but the members has moved. -/
structure Frame (h h' : BinaryHeap α) (size : Nat) (member : α → Prop) : Prop where
  index : ∀ a, ¬member a → h'.index a = h.index a
  entries : ∀ i, size ≤ i → h'.entries i = h.entries i

variable {h h' : BinaryHeap α} {size hole : Nat} {e : α} {member : α → Prop}

theorem Frame.refl : Frame h h size member := ⟨fun _ _ => rfl, fun _ _ => rfl⟩

theorem Frame.trans {h'' : BinaryHeap α} (first : Frame h h' size member)
    (second : Frame h' h'' size member) : Frame h h'' size member where
  index a other := (second.index a other).trans (first.index a other)
  entries i beyond := (second.entries i beyond).trans (first.entries i beyond)

theorem Sifting.different (sifting : Sifting h size hole e member) {i j : Nat} (i_lt : i < size)
    (j_lt : j < size) (i_ne : i ≠ hole) (j_ne : j ≠ hole) (same : h.entries i = h.entries j) :
    i = j := by
  have at_i := sifting.indexed i i_lt i_ne
  rw [same, sifting.indexed j j_lt j_ne] at at_i
  exact (Option.some.inj at_i).symm

/-- An element of a heap may be lifted out. -/
theorem Holds.lift (holds : Holds h size member) (within : hole < size) :
    Sifting h size hole (h.entries hole) member where
  within := within
  members a := by
    rw [holds.members]
    constructor
    · rintro ⟨i, i_lt, rfl⟩
      by_cases same : i = hole
      · exact .inl (by rw [same])
      · exact .inr ⟨i, i_lt, same, rfl⟩
    · rintro (rfl | ⟨i, i_lt, -, rfl⟩)
      · exact ⟨hole, within, rfl⟩
      · exact ⟨i, i_lt, rfl⟩
  indexed i i_lt _ := holds.indexed i i_lt
  apart i i_lt i_ne same := by
    have at_i := holds.indexed i i_lt
    rw [same, holds.indexed hole within] at at_i
    exact i_ne (Option.some.inj at_i).symm

theorem Sifting.mem (sifting : Sifting h size hole e member) : member e :=
  (sifting.members e).mpr (.inl rfl)

theorem Sifting.mem_entries (sifting : Sifting h size hole e member) {i : Nat} (i_lt : i < size)
    (i_ne : i ≠ hole) : member (h.entries i) :=
  (sifting.members _).mpr (.inr ⟨i, i_lt, i_ne, rfl⟩)

end

section
variable {α : Type} [DecidableEq α] (before : α → α → Bool)

def place (h : BinaryHeap α) (p : Nat) (a : α) : BinaryHeap α where
  entries := Function.update h.entries p a
  index := Function.update h.index a (some p)

/-- The element moves up from the hole until none before it is in its way. -/
def siftUp (h : BinaryHeap α) (hole : Nat) (e : α) : BinaryHeap α :=
  if 0 < hole ∧ before e (h.entries (parent hole)) then
    siftUp (h.place hole (h.entries (parent hole))) (parent hole) e
  else
    h.place hole e
termination_by hole
decreasing_by simp only [parent]; omega

/-- The child of the hole that comes first. -/
def firstChild (h : BinaryHeap α) (limit hole : Nat) : Nat :=
  if 2 * hole + 2 < limit ∧ before (h.entries (2 * hole + 2)) (h.entries (2 * hole + 1)) then
    2 * hole + 2
  else
    2 * hole + 1

/-- The element moves down from the hole until it comes before all children. -/
def siftDown (limit : Nat) (h : BinaryHeap α) (hole : Nat) (e : α) : BinaryHeap α :=
  if 2 * hole + 1 < limit ∧ before (h.entries (h.firstChild before limit hole)) e then
    siftDown limit (h.place hole (h.entries (h.firstChild before limit hole)))
      (h.firstChild before limit hole) e
  else
    h.place hole e
termination_by limit - hole
decreasing_by
  simp only [firstChild]
  split <;> omega

/-- The first element goes last, and the others are a heap again. -/
def pop (h : BinaryHeap α) (size : Nat) : BinaryHeap α :=
  if 1 < size then
    siftDown before (size - 1) (h.place (size - 1) (h.entries 0)) 0 (h.entries (size - 1))
  else
    h

variable {before} {h h' : BinaryHeap α} {size hole : Nat} {e : α} {member : α → Prop}

theorem place_entries_of_ne {p i : Nat} {a : α} (different : i ≠ p) :
    (h.place p a).entries i = h.entries i := Function.update_of_ne different ..

@[simp] theorem place_entries_self {p : Nat} {a : α} : (h.place p a).entries p = a :=
  Function.update_self ..

theorem Frame.place {p : Nat} {a : α} (within : p < size) (mem : member a) :
    Frame h (h.place p a) size member where
  index b other := by
    apply Function.update_of_ne
    rintro rfl
    exact other mem
  entries i beyond := place_entries_of_ne (by omega)

/-- The hole changes places with an element. -/
theorem Sifting.move (sifting : Sifting h size hole e member) {p : Nat} (p_lt : p < size)
    (p_ne : p ≠ hole) : Sifting (h.place hole (h.entries p)) size p e member where
  within := p_lt
  members a := by
    rw [sifting.members]
    apply or_congr_right
    constructor
    · rintro ⟨i, i_lt, i_ne, rfl⟩
      by_cases same : i = p
      · exact ⟨hole, sifting.within, p_ne.symm, by rw [place_entries_self, same]⟩
      · exact ⟨i, i_lt, same, place_entries_of_ne i_ne⟩
    · rintro ⟨i, i_lt, i_ne, rfl⟩
      by_cases same : i = hole
      · exact ⟨p, p_lt, p_ne, by rw [same, place_entries_self]⟩
      · exact ⟨i, i_lt, same, (place_entries_of_ne same).symm⟩
  indexed i i_lt i_ne := by
    by_cases same : i = hole
    · rw [same, place_entries_self]
      exact Function.update_self ..
    · rw [place_entries_of_ne same]
      have other : h.entries i ≠ h.entries p := fun equal =>
        i_ne (sifting.different i_lt p_lt same p_ne equal)
      exact (Function.update_of_ne other ..).trans (sifting.indexed i i_lt same)
  apart i i_lt i_ne := by
    by_cases same : i = hole
    · rw [same, place_entries_self]
      exact sifting.apart p p_lt p_ne
    · rw [place_entries_of_ne same]
      exact sifting.apart i i_lt same

/-- Beyond its end the heap does not mind. -/
theorem Holds.append (holds : Holds h size member) (new : ¬member e) :
    Holds (h.place size e) size member where
  members a := by
    rw [holds.members]
    apply exists_congr
    intro i
    apply and_congr_right
    intro i_lt
    rw [place_entries_of_ne (Nat.ne_of_lt i_lt)]
  indexed i i_lt := by
    rw [place_entries_of_ne (Nat.ne_of_lt i_lt)]
    have other : h.entries i ≠ e := by
      rintro rfl
      exact new ((holds.members _).mpr ⟨i, i_lt, rfl⟩)
    exact (Function.update_of_ne other ..).trans (holds.indexed i i_lt)

theorem Sifting.finish (sifting : Sifting h size hole e member) :
    Holds (h.place hole e) size member where
  members a := by
    rw [sifting.members]
    constructor
    · rintro (rfl | ⟨i, i_lt, i_ne, rfl⟩)
      · exact ⟨hole, sifting.within, place_entries_self⟩
      · exact ⟨i, i_lt, place_entries_of_ne i_ne⟩
    · rintro ⟨i, i_lt, rfl⟩
      by_cases same : i = hole
      · exact .inl (by rw [same, place_entries_self])
      · exact .inr ⟨i, i_lt, same, (place_entries_of_ne same).symm⟩
  indexed i i_lt := by
    by_cases same : i = hole
    · rw [same, place_entries_self]
      exact Function.update_self ..
    · rw [place_entries_of_ne same]
      exact (Function.update_of_ne (sifting.apart i i_lt same) ..).trans
        (sifting.indexed i i_lt same)

end

section
variable {α κ : Type} [LinearOrder κ] {key : α → κ} {before : α → α → Bool} {member : α → Prop}
  {h : BinaryHeap α} {size hole : Nat} {e : α}

/-- The comparison of two different members is that of their keys. -/
def Agrees (before : α → α → Bool) (key : α → κ) (member : α → Prop) : Prop :=
  ∀ a b, member a → member b → a ≠ b → (before a b = true ↔ key a < key b)

def Ordered (key : α → κ) (h : BinaryHeap α) (size : Nat) : Prop :=
  ∀ i, 0 < i → i < size → key (h.entries (parent i)) ≤ key (h.entries i)

/-- Whatever does not touch the hole is in order. -/
def OrderedExcept (key : α → κ) (h : BinaryHeap α) (size hole : Nat) : Prop :=
  ∀ i, 0 < i → i < size → i ≠ hole → parent i ≠ hole →
    key (h.entries (parent i)) ≤ key (h.entries i)

/-- The children of the hole come after its parent. -/
def Bridged (key : α → κ) (h : BinaryHeap α) (size hole : Nat) : Prop :=
  0 < hole → ∀ c, 0 < c → c < size → parent c = hole →
    key (h.entries (parent hole)) ≤ key (h.entries c)

theorem parent_lt {i : Nat} (positive : 0 < i) : parent i < i := by
  unfold parent
  omega

theorem Ordered.except (ordered : Ordered key h size) : OrderedExcept key h size hole :=
  fun i positive i_lt _ _ => ordered i positive i_lt

theorem Ordered.bridged (ordered : Ordered key h size) (within : hole < size) :
    Bridged key h size hole := by
  intro positive c c_pos c_lt child
  have up := ordered hole positive within
  have down := ordered c c_pos c_lt
  rw [child] at down
  exact up.trans down

theorem Ordered.congr {key' : α → κ} (ordered : Ordered key h size) {size' : Nat}
    (fewer : size' ≤ size) (same : ∀ i < size', key' (h.entries i) = key (h.entries i)) :
    Ordered key' h size' := by
  intro i positive i_lt
  rw [same i i_lt, same _ ((parent_lt positive).trans i_lt)]
  exact ordered i positive (by omega)

/-- The first element comes before all. -/
theorem Ordered.root (ordered : Ordered key h size) (i : Nat) (i_lt : i < size) :
    key (h.entries 0) ≤ key (h.entries i) := by
  induction i using Nat.strongRecOn with
  | ind i ih =>
    obtain rfl | positive := Nat.eq_zero_or_pos i
    · exact le_refl _
    · have smaller := parent_lt positive
      exact (ih (parent i) smaller (by omega)).trans (ordered i positive i_lt)

theorem firstChild_spec (agrees : Agrees before key member)
    (sifting : Sifting h size hole e member) (inside : 2 * hole + 1 < size) :
    hole < h.firstChild before size hole ∧ h.firstChild before size hole < size ∧
      parent (h.firstChild before size hole) = hole ∧
      ∀ c, 0 < c → c < size → parent c = hole →
        key (h.entries (h.firstChild before size hole)) ≤ key (h.entries c) := by
  have left := sifting.mem_entries inside (by omega)
  have children : ∀ c, 0 < c → parent c = hole → c = 2 * hole + 1 ∨ c = 2 * hole + 2 := by
    intro c positive child
    unfold parent at child
    omega
  unfold firstChild
  split
  · rename_i second
    obtain ⟨both, first⟩ := second
    have right := sifting.mem_entries both (by omega)
    have apart : h.entries (2 * hole + 2) ≠ h.entries (2 * hole + 1) := by
      intro same
      have := sifting.different both inside (by omega) (by omega) same
      omega
    have earlier := (agrees _ _ right left apart).mp first
    refine ⟨by omega, both, by unfold parent; omega, fun c positive c_lt child => ?_⟩
    obtain rfl | rfl := children c positive child
    · exact earlier.le
    · exact le_refl _
  · rename_i first
    refine ⟨by omega, inside, by unfold parent; omega, fun c positive c_lt child => ?_⟩
    obtain rfl | rfl := children c positive child
    · exact le_refl _
    · have right := sifting.mem_entries c_lt (by omega)
      have apart : h.entries (2 * hole + 2) ≠ h.entries (2 * hole + 1) := by
        intro same
        have := sifting.different c_lt inside (by omega) (by omega) same
        omega
      apply le_of_not_gt
      intro earlier
      exact first ⟨c_lt, (agrees _ _ right left apart).mpr earlier⟩

variable [DecidableEq α]

/-- A hole whose element comes before its children may move up. -/
theorem OrderedExcept.up (except : OrderedExcept key h size hole) (bridged : Bridged key h size hole)
    (positive : 0 < hole) (within : hole < size) :
    OrderedExcept key (h.place hole (h.entries (parent hole))) size (parent hole) ∧
      Bridged key (h.place hole (h.entries (parent hole))) size (parent hole) ∧
      ∀ c, 0 < c → c < size → parent c = parent hole →
        key (h.entries (parent hole)) ≤
          key ((h.place hole (h.entries (parent hole))).entries c) := by
  have smaller := parent_lt positive
  have siblings : ∀ c, 0 < c → c < size → parent c = parent hole →
      key (h.entries (parent hole)) ≤
        key ((h.place hole (h.entries (parent hole))).entries c) := by
    intro c c_pos c_lt child
    by_cases same : c = hole
    · rw [same, place_entries_self]
    · rw [place_entries_of_ne same, ← child]
      exact except c c_pos c_lt same (by omega)
  refine ⟨?_, ?_, siblings⟩
  · intro i i_pos i_lt i_ne parent_ne
    have different : i ≠ hole := fun same => parent_ne (congrArg parent same)
    rw [place_entries_of_ne different]
    by_cases below : parent i = hole
    · rw [below, place_entries_self]
      exact bridged positive i i_pos i_lt below
    · rw [place_entries_of_ne below]
      exact except i i_pos i_lt different below
  · intro upper c c_pos c_lt child
    have highest := parent_lt upper
    rw [place_entries_of_ne (by omega)]
    apply le_trans _ (siblings c c_pos c_lt child)
    exact except (parent hole) upper (by omega) (by omega) (by omega)

/-- An element in the hole that comes after its parent and before its children completes the order. -/
theorem OrderedExcept.fill (except : OrderedExcept key h size hole)
    (above : 0 < hole → key (h.entries (parent hole)) ≤ key e)
    (below : ∀ c, 0 < c → c < size → parent c = hole → key e ≤ key (h.entries c)) :
    Ordered key (h.place hole e) size := by
  intro i positive i_lt
  have smaller := parent_lt positive
  by_cases same : i = hole
  · subst same
    rw [place_entries_self, place_entries_of_ne (by omega)]
    exact above positive
  · rw [place_entries_of_ne same]
    by_cases child : parent i = hole
    · rw [child, place_entries_self]
      exact below i positive i_lt child
    · rw [place_entries_of_ne child]
      exact except i positive i_lt same child

/-- An element that comes before the children of the hole finds its place upwards. -/
theorem siftUp_spec (agrees : Agrees before key member) (sifting : Sifting h size hole e member)
    (except : OrderedExcept key h size hole) (bridged : Bridged key h size hole)
    (below : ∀ c, 0 < c → c < size → parent c = hole → key e ≤ key (h.entries c)) :
    Holds (siftUp before h hole e) size member ∧ Ordered key (siftUp before h hole e) size ∧
      Frame h (siftUp before h hole e) size member := by
  induction hole using Nat.strongRecOn generalizing h with
  | ind hole ih =>
    have within := sifting.within
    rw [siftUp]
    split
    · rename_i moves
      obtain ⟨positive, first⟩ := moves
      have smaller := parent_lt positive
      have mem := sifting.mem_entries (by omega : parent hole < size) (by omega)
      have earlier : key e < key (h.entries (parent hole)) :=
        (agrees _ _ sifting.mem mem (sifting.apart _ (by omega) (by omega)).symm).mp first
      obtain ⟨except, bridged, siblings⟩ := except.up bridged positive within
      obtain ⟨holds, ordered, frame⟩ := ih (parent hole) smaller
        (sifting.move (by omega) (by omega)) except bridged fun c c_pos c_lt child =>
          earlier.le.trans (siblings c c_pos c_lt child)
      exact ⟨holds, ordered, (Frame.place within mem).trans frame⟩
    · rename_i stays
      refine ⟨sifting.finish, except.fill (fun positive => ?_) below,
        .place within sifting.mem⟩
      have smaller := parent_lt positive
      have mem := sifting.mem_entries (by omega : parent hole < size) (by omega)
      apply le_of_not_gt
      intro earlier
      exact stays ⟨positive, (agrees _ _ sifting.mem mem
        (sifting.apart _ (by omega) (by omega)).symm).mpr earlier⟩

/-- An element that comes after the parent of the hole finds its place downwards. -/
theorem siftDown_spec (agrees : Agrees before key member) (sifting : Sifting h size hole e member)
    (except : OrderedExcept key h size hole) (bridged : Bridged key h size hole)
    (above : 0 < hole → key (h.entries (parent hole)) ≤ key e) :
    Holds (siftDown before size h hole e) size member ∧
      Ordered key (siftDown before size h hole e) size ∧
      Frame h (siftDown before size h hole e) size member := by
  induction room : size - hole using Nat.strongRecOn generalizing h hole with
  | ind room ih =>
    have within := sifting.within
    rw [siftDown]
    split
    · rename_i moves
      obtain ⟨inside, first⟩ := moves
      obtain ⟨lower, c_lt, child, least⟩ := firstChild_spec agrees sifting inside
      generalize h.firstChild before size hole = c at *
      have mem := sifting.mem_entries c_lt (by omega)
      have earlier : key (h.entries c) < key e :=
        (agrees _ _ mem sifting.mem (sifting.apart c c_lt (by omega))).mp first
      obtain ⟨holds, ordered, frame⟩ : Holds (siftDown before size (h.place hole (h.entries c)) c e)
          size member ∧ Ordered key (siftDown before size (h.place hole (h.entries c)) c e) size ∧
          Frame (h.place hole (h.entries c)) (siftDown before size (h.place hole (h.entries c)) c e)
            size member := by
        apply ih (size - c) (by omega) (sifting.move c_lt (by omega)) _ _ _ rfl
        · intro i positive i_lt i_ne parent_ne
          by_cases same : i = hole
          · subst same
            have smaller := parent_lt positive
            rw [place_entries_self, place_entries_of_ne (by omega)]
            exact bridged positive c (by omega) c_lt child
          · rw [place_entries_of_ne same]
            by_cases sibling : parent i = hole
            · rw [sibling, place_entries_self]
              exact least i positive i_lt sibling
            · rw [place_entries_of_ne sibling]
              exact except i positive i_lt same sibling
        · intro _ d d_pos d_lt grandchild
          have lowest := parent_lt d_pos
          rw [child, place_entries_self, place_entries_of_ne (by omega)]
          have order := except d d_pos d_lt (by omega) (by omega)
          rwa [grandchild] at order
        · intro _
          rw [child, place_entries_self]
          exact earlier.le
      exact ⟨holds, ordered, (Frame.place within mem).trans frame⟩
    · rename_i stays
      refine ⟨sifting.finish, except.fill above fun c c_pos c_lt child => ?_,
        .place within sifting.mem⟩
      have inside : 2 * hole + 1 < size := by
        unfold parent at child
        omega
      obtain ⟨lower, first_lt, -, least⟩ := firstChild_spec agrees sifting inside
      apply le_trans _ (least c c_pos c_lt child)
      apply le_of_not_gt
      intro earlier
      exact stays ⟨inside, (agrees _ _ (sifting.mem_entries first_lt (by omega)) sifting.mem
        (sifting.apart _ first_lt (by omega))).mpr earlier⟩

/-- An element whose key has fallen finds its place. -/
theorem decrease_spec {old : α → κ} (agrees : Agrees before key member)
    (holds : Holds h size member) (ordered : Ordered old h size) (within : hole < size)
    (others : ∀ a, a ≠ h.entries hole → key a = old a)
    (falls : key (h.entries hole) ≤ old (h.entries hole)) :
    Holds (siftUp before h hole (h.entries hole)) size member ∧
      Ordered key (siftUp before h hole (h.entries hole)) size ∧
      Frame h (siftUp before h hole (h.entries hole)) size member := by
  have sifting := holds.lift within
  have kept : ∀ i < size, i ≠ hole → key (h.entries i) = old (h.entries i) :=
    fun i i_lt i_ne => others _ (sifting.apart i i_lt i_ne)
  apply siftUp_spec agrees sifting
  · intro i positive i_lt i_ne parent_ne
    have smaller := parent_lt positive
    rw [kept i i_lt i_ne, kept (parent i) (by omega) parent_ne]
    exact ordered i positive i_lt
  · intro positive c c_pos c_lt child
    have smaller := parent_lt positive
    have lower := parent_lt c_pos
    rw [kept c c_lt (by omega), kept (parent hole) (by omega) (by omega)]
    exact ordered.bridged within positive c c_pos c_lt child
  · intro c c_pos c_lt child
    have lower := parent_lt c_pos
    rw [kept c c_lt (by omega)]
    have order := ordered c c_pos c_lt
    rw [child] at order
    exact falls.trans order

/-- A new element at the end finds its place. -/
theorem push_spec (agrees : Agrees before key fun a => a = h.entries size ∨ member a)
    (holds : Holds h size member) (ordered : Ordered key h size) (new : ¬member (h.entries size)) :
    Holds (siftUp before h size (h.entries size)) (size + 1)
        (fun a => a = h.entries size ∨ member a) ∧
      Ordered key (siftUp before h size (h.entries size)) (size + 1) ∧
      Frame h (siftUp before h size (h.entries size)) (size + 1)
        (fun a => a = h.entries size ∨ member a) := by
  have sifting : Sifting h (size + 1) size (h.entries size)
      fun a => a = h.entries size ∨ member a := by
    refine ⟨Nat.lt_succ_self size, fun a => or_congr_right ?_, ?_, ?_⟩
    · rw [holds.members]
      constructor
      · rintro ⟨i, i_lt, rfl⟩
        exact ⟨i, by omega, by omega, rfl⟩
      · rintro ⟨i, i_lt, i_ne, rfl⟩
        exact ⟨i, by omega, rfl⟩
    · exact fun i i_lt i_ne => holds.indexed i (by omega)
    · intro i i_lt i_ne same
      exact new (same ▸ (holds.members _).mpr ⟨i, by omega, rfl⟩)
  have childless : ∀ c, 0 < c → c < size + 1 → parent c ≠ size := by
    intro c c_pos c_lt child
    have := parent_lt c_pos
    omega
  apply siftUp_spec agrees sifting
  · exact fun i positive i_lt i_ne _ => ordered i positive (by omega)
  · exact fun _ c c_pos c_lt child => absurd child (childless c c_pos c_lt)
  · exact fun c c_pos c_lt child => absurd child (childless c c_pos c_lt)

/-- The first element is taken to the end; the others are in order before it. -/
theorem pop_spec (agrees : Agrees before key fun a => member a ∧ a ≠ h.entries 0)
    (holds : Holds h size member) (ordered : Ordered key h size) (positive : 0 < size) :
    (h.pop before size).entries (size - 1) = h.entries 0 ∧
      Holds (h.pop before size) (size - 1) (fun a => member a ∧ a ≠ h.entries 0) ∧
      Ordered key (h.pop before size) (size - 1) ∧
      (h.pop before size).index (h.entries 0) = some (size - 1) ∧
      ∀ a, ¬member a → (h.pop before size).index a = h.index a := by
  have apart : ∀ i < size, i ≠ 0 → h.entries i ≠ h.entries 0 := (holds.lift positive).apart
  unfold pop
  split
  · rename_i many
    have last : (h.place (size - 1) (h.entries 0)).entries (size - 1) = h.entries 0 :=
      place_entries_self
    have earlier : ∀ i < size - 1, (h.place (size - 1) (h.entries 0)).entries i = h.entries i :=
      fun i i_lt => place_entries_of_ne (by omega)
    have sifting : Sifting (h.place (size - 1) (h.entries 0)) (size - 1) 0 (h.entries (size - 1))
        fun a => member a ∧ a ≠ h.entries 0 := by
      refine ⟨by omega, fun a => ?_, ?_, ?_⟩
      · rw [holds.members]
        constructor
        · rintro ⟨⟨i, i_lt, rfl⟩, different⟩
          by_cases final : i = size - 1
          · exact .inl (by rw [final])
          · refine .inr ⟨i, by omega, ?_, earlier i (by omega)⟩
            rintro rfl
            exact different rfl
        · rintro (rfl | ⟨i, i_lt, i_ne, rfl⟩)
          · exact ⟨⟨size - 1, by omega, rfl⟩, apart _ (by omega) (by omega)⟩
          · rw [earlier i i_lt]
            exact ⟨⟨i, by omega, rfl⟩, apart i (by omega) i_ne⟩
      · intro i i_lt i_ne
        rw [earlier i i_lt]
        exact (Function.update_of_ne (apart i (by omega) i_ne) ..).trans
          (holds.indexed i (by omega))
      · intro i i_lt i_ne same
        rw [earlier i i_lt] at same
        have at_i := holds.indexed i (by omega)
        rw [same, holds.indexed _ (by omega)] at at_i
        have := Option.some.inj at_i
        omega
    have moved : Ordered key (h.place (size - 1) (h.entries 0)) (size - 1) := by
      intro i i_pos i_lt
      rw [earlier i i_lt, earlier _ ((parent_lt i_pos).trans i_lt)]
      exact ordered i i_pos (by omega)
    obtain ⟨held, sorted, frame⟩ := siftDown_spec agrees sifting moved.except
      (fun absurd_ => absurd absurd_ (Nat.lt_irrefl 0)) fun absurd_ => absurd absurd_ (Nat.lt_irrefl 0)
    refine ⟨(frame.entries _ (le_refl _)).trans last, held, sorted,
      (frame.index _ fun both => both.2 rfl).trans (Function.update_self ..), fun a other => ?_⟩
    rw [frame.index a fun both => other both.1]
    apply Function.update_of_ne
    rintro rfl
    exact other ((holds.members _).mpr ⟨0, positive, rfl⟩)
  · rename_i single
    obtain rfl : size = 1 := by omega
    refine ⟨rfl, ⟨fun a => ?_, fun i i_lt => absurd i_lt (Nat.not_lt_zero i)⟩,
      fun i _ i_lt => absurd i_lt (Nat.not_lt_zero i), holds.indexed 0 positive, fun _ _ => rfl⟩
    constructor
    · rintro ⟨mem, different⟩
      obtain ⟨i, i_lt, rfl⟩ := (holds.members a).mp mem
      exact absurd (congrArg h.entries (by omega)) different
    · rintro ⟨i, i_lt, -⟩
      exact absurd i_lt (Nat.not_lt_zero i)

end

end BinaryHeap

end WkcBrowser.Lib
