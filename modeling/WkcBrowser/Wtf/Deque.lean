import Mathlib.Logic.Function.Basic
import Mathlib.Data.List.Basic
import WkcBrowser.Lib.Writer

/-! `WTF::Deque`. The elements stand in a ring, from `m_start` up to `m_end` or around the end of the
buffer. A place of the buffer without a constructed element is `none`, and nothing comes of a call that
reads such a place, or leaves the buffer. -/

namespace WkcBrowser.Wtf

open Lib Window

structure Deque (α : Type) where
  m_start : Nat
  m_end : Nat
  m_buffer : List (Option α)

namespace Deque

section
variable {α : Type}

def capacity (d : Deque α) : Nat := d.m_buffer.length

/-- A fresh buffer. -/
def allocateBuffer (newCapacity : Nat) : List (Option α) := List.replicate newCapacity none

/-- The elements from `first` up to `last`, which are all constructed. -/
def read (buffer : List (Option α)) (first last : Nat) : Option (List α) :=
  if first ≤ last ∧ last ≤ buffer.length then ((buffer.drop first).take (last - first)).mapM id
  else none

/-- Elements are constructed from `dst` on. -/
def construct (buffer : List (Option α)) (dst : Nat) (values : List α) : Option (List (Option α)) :=
  if dst + values.length ≤ buffer.length then some (overwrite buffer dst (values.map some)) else none

def destruct (buffer : List (Option α)) (first last : Nat) : Option (List (Option α)) := do
  let values ← read buffer first last
  some (overwrite buffer first (List.replicate values.length none))

def uninitializedCopy (src : List (Option α)) (first last : Nat) (buffer : List (Option α))
    (dst : Nat) : Option (List (Option α)) := do
  construct buffer dst (← read src first last)

/-- Elements move within a buffer, to places that may overlap with where they were. -/
def moveOverlapping (buffer : List (Option α)) (first last dst : Nat) :
    Option (List (Option α)) := do
  let values ← read buffer first last
  construct (overwrite buffer first (List.replicate values.length none)) dst values

def create : Deque α := ⟨0, 0, []⟩

def size (d : Deque α) : Nat :=
  if d.m_start ≤ d.m_end then d.m_end - d.m_start else d.m_end + d.capacity - d.m_start

def isEmpty (d : Deque α) : Bool := d.m_start == d.m_end

/-- The old buffer is given back, so what moves from it to the new one is only read. -/
def expandCapacity (d : Deque α) : Option (Deque α) :=
  let oldCapacity := d.capacity
  let newCapacity := max 16 (oldCapacity + oldCapacity / 4 + 1)
  let buffer := allocateBuffer newCapacity
  if d.m_start ≤ d.m_end then do
    some { d with m_buffer := ← uninitializedCopy d.m_buffer d.m_start d.m_end buffer d.m_start }
  else do
    let buffer ← uninitializedCopy d.m_buffer 0 d.m_end buffer 0
    let newStart := newCapacity - (oldCapacity - d.m_start)
    let buffer ← uninitializedCopy d.m_buffer d.m_start oldCapacity buffer newStart
    some { d with m_start := newStart, m_buffer := buffer }

def expandCapacityIfNeeded (d : Deque α) : Option (Deque α) :=
  if d.m_start ≠ 0 then
    if d.m_end + 1 ≠ d.m_start then some d else d.expandCapacity
  else if d.m_end ≠ 0 then
    if d.m_end ≠ d.capacity - 1 then some d else d.expandCapacity
  else if d.capacity ≠ 0 then some d
  else d.expandCapacity

def append (d : Deque α) (value : α) : Option (Deque α) := do
  let d ← d.expandCapacityIfNeeded
  let buffer ← construct d.m_buffer d.m_end [value]
  some ⟨d.m_start, if d.m_end = d.capacity - 1 then 0 else d.m_end + 1, buffer⟩

def prepend (d : Deque α) (value : α) : Option (Deque α) := do
  let d ← d.expandCapacityIfNeeded
  let m_start := if d.m_start = 0 then d.capacity - 1 else d.m_start - 1
  some ⟨m_start, d.m_end, ← construct d.m_buffer m_start [value]⟩

def removeFirst (d : Deque α) : Option (Deque α) := do
  let buffer ← destruct d.m_buffer d.m_start (d.m_start + 1)
  some ⟨if d.m_start = d.capacity - 1 then 0 else d.m_start + 1, d.m_end, buffer⟩

/-- `remove`, at the index of an iterator. -/
def remove (d : Deque α) (position : Nat) : Option (Deque α) :=
  if position = d.m_end then some d
  else do
    let buffer ← destruct d.m_buffer position (position + 1)
    if d.m_start ≤ position then
      some { d with
        m_start := (d.m_start + 1) % d.capacity
        m_buffer := ← moveOverlapping buffer d.m_start position (d.m_start + 1) }
    else
      some { d with
        m_end := (d.m_end - 1 + d.capacity) % d.capacity
        m_buffer := ← moveOverlapping buffer (position + 1) d.m_end position }

def destroyAll (d : Deque α) : Option (List (Option α)) :=
  if d.m_start ≤ d.m_end then destruct d.m_buffer d.m_start d.m_end
  else do
    let buffer ← destruct d.m_buffer 0 d.m_end
    destruct buffer d.m_start d.capacity

def clear (d : Deque α) : Option (Deque α) := do
  some ⟨0, 0, ← d.destroyAll⟩

/-- The copy constructor. -/
def copy (other : Deque α) : Option (Deque α) :=
  let buffer := allocateBuffer other.capacity
  if other.m_start ≤ other.m_end then do
    some { other with
      m_buffer := ← uninitializedCopy other.m_buffer other.m_start other.m_end buffer other.m_start }
  else do
    let buffer ← uninitializedCopy other.m_buffer 0 other.m_end buffer 0
    some { other with
      m_buffer :=
        ← uninitializedCopy other.m_buffer other.m_start other.capacity buffer other.m_start }

/-- `operator++` of an iterator. -/
def increment (d : Deque α) (index : Nat) : Nat := if index = d.capacity - 1 then 0 else index + 1

/-- The iterator that stands the given number of steps behind `begin()`. -/
def iterator (d : Deque α) : Nat → Nat
  | 0 => d.m_start
  | steps + 1 => d.increment (d.iterator steps)

/-- The loop from an iterator up to `end()`, with at most the given number of steps. -/
def traverseFrom (d : Deque α) : Nat → Nat → Option (List α)
  | 0, _ => none
  | steps + 1, index =>
    if index = d.m_end then some []
    else do
      let value ← (← d.m_buffer[index]?)
      some (value :: (← d.traverseFrom steps (d.increment index)))

/-- The elements from `begin()` to `end()`. -/
def traverse (d : Deque α) : Option (List α) := d.traverseFrom (d.capacity + 1) d.m_start

/-- How a deque stores the elements of a list: in one stretch, or around the end of the buffer. -/
inductive Layout (d : Deque α) : List α → Prop where
  | straight {xs : List α} (inside : d.m_end < d.capacity ∨ d.capacity = 0 ∧ d.m_end = 0)
      (ends : d.m_start + xs.length = d.m_end) (holds : Holds d.m_buffer d.m_start (xs.map some)) :
      Layout d xs
  | wrapped {front back : List α} (ends : d.m_start + front.length = d.capacity)
      (before : d.m_end < d.m_start) (inside : d.m_start < d.capacity) (length : back.length = d.m_end)
      (holds : Holds d.m_buffer d.m_start (front.map some))
      (holds' : Holds d.m_buffer 0 (back.map some)) : Layout d (front ++ back)

/-- A buffer that is not empty has room to tell a full deque from an empty one. -/
structure Represents (d : Deque α) (xs : List α) : Prop where
  sized : d.capacity = 0 ∨ 16 ≤ d.capacity
  layout : Layout d xs

variable {d : Deque α} {xs values : List α} {buffer : List (Option α)} {first last dst : Nat} {x : α}

theorem mapM_id_some (values : List α) : (values.map some).mapM id = some values := by
  induction values with
  | nil => rfl
  | cons value values ih => simp [List.mapM_cons, ih]

theorem read_eq (holds : Holds buffer first (values.map some))
    (fits : first + values.length ≤ buffer.length) (ends : first + values.length = last) :
    read buffer first last = some values := by
  obtain rfl := ends
  have taken := holds.take_drop
  rw [List.length_map] at taken
  rw [read, if_pos ⟨Nat.le_add_right _ _, fits⟩, Nat.add_sub_cancel_left, taken, mapM_id_some]

theorem construct_eq (fits : dst + values.length ≤ buffer.length) :
    construct buffer dst values = some (overwrite buffer dst (values.map some)) :=
  if_pos fits

theorem destruct_eq (holds : Holds buffer first (values.map some))
    (fits : first + values.length ≤ buffer.length) (ends : first + values.length = last) :
    destruct buffer first last =
      some (overwrite buffer first (List.replicate values.length none)) := by
  rw [destruct, read_eq holds fits ends]
  rfl

theorem uninitializedCopy_eq {src : List (Option α)} (holds : Holds src first (values.map some))
    (fits : first + values.length ≤ src.length) (ends : first + values.length = last)
    (room : dst + values.length ≤ buffer.length) :
    uninitializedCopy src first last buffer dst = some (overwrite buffer dst (values.map some)) := by
  rw [uninitializedCopy, read_eq holds fits ends]
  exact construct_eq room

theorem moveOverlapping_eq (holds : Holds buffer first (values.map some))
    (fits : first + values.length ≤ buffer.length) (ends : first + values.length = last)
    (room : dst + values.length ≤ buffer.length) :
    moveOverlapping buffer first last dst =
      some (overwrite (overwrite buffer first (List.replicate values.length none)) dst
        (values.map some)) := by
  rw [moveOverlapping, read_eq holds fits ends]
  refine construct_eq ?_
  rw [length_overwrite (by rwa [List.length_replicate])]
  exact room

theorem length_construct (fits : dst + values.length ≤ buffer.length) :
    (overwrite buffer dst (values.map some)).length = buffer.length :=
  length_overwrite (by rwa [List.length_map])

theorem holds_construct (fits : dst + values.length ≤ buffer.length) :
    Holds (overwrite buffer dst (values.map some)) dst (values.map some) :=
  holds_overwrite (by rwa [List.length_map])

/-- Elements apart from a write stay. -/
theorem holds_apart (holds : Holds buffer first (xs.map some))
    (fits : dst + values.length ≤ buffer.length)
    (apart : first + xs.length ≤ dst ∨ dst + values.length ≤ first) :
    Holds (overwrite buffer dst (values.map some)) first (xs.map some) :=
  holds.overwrite (by rwa [List.length_map]) (by rwa [List.length_map, List.length_map])

theorem length_destruct {count : Nat} (fits : dst + count ≤ buffer.length) :
    (overwrite buffer dst (List.replicate count none)).length = buffer.length :=
  length_overwrite (by rwa [List.length_replicate])

theorem holds_destruct {count : Nat} (holds : Holds buffer first (xs.map some))
    (fits : dst + count ≤ buffer.length) (apart : first + xs.length ≤ dst ∨ dst + count ≤ first) :
    Holds (overwrite buffer dst (List.replicate count none)) first (xs.map some) :=
  holds.overwrite (by rwa [List.length_replicate]) (by rwa [List.length_map, List.length_replicate])

theorem Layout.size_eq (layout : Layout d xs) : d.size = xs.length := by
  unfold size
  cases layout with
  | straight inside ends => rw [if_pos (by omega)]; omega
  | wrapped ends before inside length =>
    rw [if_neg (by omega), List.length_append]
    omega

theorem Layout.isEmpty_eq (layout : Layout d xs) : d.isEmpty = xs.isEmpty := by
  rw [isEmpty, Bool.eq_iff_iff, beq_iff_eq, List.isEmpty_iff_length_eq_zero]
  cases layout with
  | straight inside ends => omega
  | wrapped ends before inside length =>
    rw [List.length_append]
    omega

/-- There is room for one more element, and the deque is not full behind it. -/
def Roomy (d : Deque α) (xs : List α) : Prop := xs.length + 1 < d.capacity

theorem Represents.expandCapacity (represents : Represents d xs) :
    ∃ d', d.expandCapacity = some d' ∧ Represents d' xs ∧ Roomy d' xs := by
  obtain ⟨sized, layout⟩ := represents
  have fresh : ∀ n, (allocateBuffer n : List (Option α)).length = n := fun n =>
    List.length_replicate
  unfold Deque.expandCapacity
  dsimp only
  generalize size : max 16 (d.capacity + d.capacity / 4 + 1) = newCapacity
  have large : 16 ≤ newCapacity := by omega
  have larger : d.capacity < newCapacity := by omega
  have room := fresh newCapacity
  cases layout with
  | straight inside ends holds =>
    have fits : d.m_start + xs.length ≤ d.m_buffer.length := by
      change _ ≤ d.capacity
      omega
    have fits' : d.m_start + xs.length ≤ (allocateBuffer newCapacity : List (Option α)).length := by
      rw [room]
      omega
    rw [if_pos (by omega), uninitializedCopy_eq holds fits ends fits']
    have length := length_construct fits'
    rw [room] at length
    refine ⟨_, rfl, ⟨.inr ?_, .straight (.inl ?_) ends (holds_construct fits')⟩, ?_⟩
    · change 16 ≤ (overwrite _ _ _).length
      omega
    · change d.m_end < (overwrite _ _ _).length
      omega
    · change xs.length + 1 < (overwrite _ _ _).length
      omega
  | @wrapped front back ends before inside length holds holds' =>
    have fits : 0 + back.length ≤ d.m_buffer.length := by
      change _ ≤ d.capacity
      omega
    have fits' : 0 + back.length ≤ (allocateBuffer newCapacity : List (Option α)).length := by
      rw [room]
      omega
    have fits2 : d.m_start + front.length ≤ d.m_buffer.length := Nat.le_of_eq ends
    have room2 := length_construct fits'
    rw [room] at room2
    have fits2' : newCapacity - (d.capacity - d.m_start) + front.length ≤
        (overwrite (allocateBuffer newCapacity) 0 (back.map some)).length := by
      rw [room2]
      omega
    have copied := uninitializedCopy_eq holds' fits (by omega : 0 + back.length = d.m_end) fits'
    rw [if_neg (by omega), copied, Option.bind_eq_bind, Option.bind_some,
      uninitializedCopy_eq holds fits2 ends fits2']
    have room3 := length_construct fits2'
    rw [room2] at room3
    refine ⟨_, rfl, ⟨.inr ?_, .wrapped ?_ ?_ ?_ length (holds_construct fits2')
      (holds_apart (holds_construct fits') fits2' (by omega))⟩, ?_⟩
    · change 16 ≤ (overwrite _ _ _).length
      omega
    · change _ = (overwrite _ _ _).length
      dsimp only
      omega
    · dsimp only
      omega
    · change _ < (overwrite _ _ _).length
      dsimp only
      omega
    · change (front ++ back).length + 1 < (overwrite _ _ _).length
      rw [List.length_append]
      omega

/-- The ring is enlarged where one place only is free, since a full ring would look like an empty one. -/
theorem Represents.expandCapacityIfNeeded (represents : Represents d xs) :
    ∃ d', d.expandCapacityIfNeeded = some d' ∧ Represents d' xs ∧ Roomy d' xs := by
  have sized := represents.sized
  have expanded := represents.expandCapacity
  have layout := represents.layout
  unfold Deque.expandCapacityIfNeeded
  split_ifs with start full ended full' empty
  · refine ⟨d, rfl, represents, ?_⟩
    unfold Roomy
    cases layout with
    | straight inside ends => omega
    | wrapped ends before inside length =>
      rw [List.length_append]
      omega
  · exact expanded
  · refine ⟨d, rfl, represents, ?_⟩
    unfold Roomy
    cases layout with
    | straight inside ends => omega
    | wrapped ends before inside length => omega
  · exact expanded
  · refine ⟨d, rfl, represents, ?_⟩
    unfold Roomy
    cases layout with
    | straight inside ends => omega
    | wrapped ends before inside length => omega
  · exact expanded

theorem holds_snoc : Holds buffer first ((xs ++ [x]).map some) ↔
    Holds buffer first (xs.map some) ∧ Holds buffer (first + xs.length) ([x].map some) := by
  rw [List.map_append, holds_append, List.length_map]

theorem holds_cons : Holds buffer first ((x :: xs).map some) ↔
    Holds buffer first ([x].map some) ∧ Holds buffer (first + 1) (xs.map some) := by
  rw [← List.singleton_append, List.map_append, holds_append]
  rfl

theorem Represents.append (represents : Represents d xs) (value : α) :
    ∃ d', d.append value = some d' ∧ Represents d' (xs ++ [value]) := by
  obtain ⟨e, expanded, ⟨sized, layout⟩, roomy⟩ := represents.expandCapacityIfNeeded
  unfold Roomy at roomy
  have bound : e.m_end < e.capacity := by
    cases layout with
    | straight inside ends => omega
    | wrapped ends before inside length => omega
  have fits : e.m_end + [value].length ≤ e.m_buffer.length := bound
  have room : (overwrite e.m_buffer e.m_end ([value].map some)).length = e.capacity :=
    length_construct fits
  have new := holds_construct fits
  rw [Deque.append, expanded, Option.bind_eq_bind, Option.bind_some, construct_eq fits,
    Option.bind_eq_bind, Option.bind_some]
  refine ⟨_, rfl, ?_, ?_⟩
  · change (overwrite _ _ _).length = 0 ∨ 16 ≤ (overwrite _ _ _).length
    omega
  · cases layout with
    | straight inside ends holds =>
      have whole : Holds (overwrite e.m_buffer e.m_end ([value].map some)) e.m_start
          ((xs ++ [value]).map some) := by
        refine holds_snoc.mpr ⟨holds_apart holds fits (by omega), ?_⟩
        rw [ends]
        exact new
      by_cases last : e.m_end = e.capacity - 1
      · rw [if_pos last, ← List.append_nil (xs ++ [value])]
        refine .wrapped ?_ ?_ ?_ rfl whole holds_nil
        · change _ = (overwrite _ _ _).length
          rw [List.length_append, List.length_singleton]
          dsimp only
          omega
        · dsimp only
          omega
        · change _ < (overwrite _ _ _).length
          dsimp only
          omega
      · rw [if_neg last]
        refine .straight (.inl ?_) ?_ whole
        · change _ < (overwrite _ _ _).length
          dsimp only
          omega
        · rw [List.length_append, List.length_singleton]
          dsimp only
          omega
    | @wrapped front back ends before inside length holds holds' =>
      rw [List.length_append] at roomy
      rw [if_neg (by omega), List.append_assoc]
      refine .wrapped ?_ ?_ ?_ ?_ (holds_apart holds fits ?_) ?_
      · change _ = (overwrite _ _ _).length
        dsimp only
        omega
      · dsimp only
        omega
      · change _ < (overwrite _ _ _).length
        dsimp only
        omega
      · rw [List.length_append, List.length_singleton, length]
      · have one : [value].length = 1 := rfl
        dsimp only
        omega
      · refine holds_snoc.mpr ⟨holds_apart holds' fits (by omega), ?_⟩
        rw [Nat.zero_add, length]
        exact new

theorem Represents.prepend (represents : Represents d xs) (value : α) :
    ∃ d', d.prepend value = some d' ∧ Represents d' (value :: xs) := by
  obtain ⟨e, expanded, ⟨sized, layout⟩, roomy⟩ := represents.expandCapacityIfNeeded
  unfold Roomy at roomy
  rw [Deque.prepend, expanded, Option.bind_eq_bind, Option.bind_some]
  dsimp only
  generalize start : (if e.m_start = 0 then e.capacity - 1 else e.m_start - 1) = m_start
  have bound : m_start < e.capacity := by
    cases layout with
    | straight inside ends => split at start <;> omega
    | wrapped ends before inside length => split at start <;> omega
  have fits : m_start + [value].length ≤ e.m_buffer.length := bound
  have room : (overwrite e.m_buffer m_start ([value].map some)).length = e.capacity :=
    length_construct fits
  have new := holds_construct fits
  rw [construct_eq fits, Option.bind_eq_bind, Option.bind_some]
  refine ⟨_, rfl, ?_, ?_⟩
  · change (overwrite _ _ _).length = 0 ∨ 16 ≤ (overwrite _ _ _).length
    omega
  · cases layout with
    | straight inside ends holds =>
      by_cases zero : e.m_start = 0
      · rw [if_pos zero] at start
        rw [← List.singleton_append]
        rw [zero] at holds
        refine Layout.wrapped (d := ⟨m_start, e.m_end, _⟩) ?_ ?_ ?_ ?_ new (holds_apart holds fits ?_)
        · change _ = (overwrite _ _ _).length
          rw [List.length_singleton]
          dsimp only
          omega
        · dsimp only
          omega
        · change _ < (overwrite _ _ _).length
          dsimp only
          omega
        · dsimp only
          omega
        · omega
      · rw [if_neg zero] at start
        refine .straight (.inl ?_) ?_ (holds_cons.mpr ⟨new, ?_⟩)
        · change _ < (overwrite _ _ _).length
          dsimp only
          omega
        · rw [List.length_cons]
          dsimp only
          omega
        · rw [(by omega : m_start + 1 = e.m_start)]
          refine holds_apart holds fits ?_
          rw [List.length_singleton]
          omega
    | @wrapped front back ends before inside length holds holds' =>
      rw [List.length_append] at roomy
      rw [if_neg (by omega)] at start
      rw [← List.cons_append]
      refine .wrapped ?_ ?_ ?_ length (holds_cons.mpr ⟨new, ?_⟩) (holds_apart holds' fits ?_)
      · change _ = (overwrite _ _ _).length
        rw [List.length_cons]
        dsimp only
        omega
      · dsimp only
        omega
      · change _ < (overwrite _ _ _).length
        dsimp only
        omega
      · rw [(by omega : m_start + 1 = e.m_start)]
        refine holds_apart holds fits ?_
        rw [List.length_singleton]
        omega
      · omega

theorem destruct_one (holds : Holds buffer first ([x].map some)) (fits : first < buffer.length) :
    destruct buffer first (first + 1) = some (overwrite buffer first (List.replicate 1 none)) :=
  destruct_eq holds fits rfl

theorem Represents.removeFirst (represents : Represents d (x :: xs)) :
    ∃ d', d.removeFirst = some d' ∧ Represents d' xs := by
  obtain ⟨sized, layout⟩ := represents
  generalize same : x :: xs = whole at layout
  cases layout with
  | straight inside ends holds =>
    rw [← same, List.length_cons] at ends
    rw [← same] at holds
    obtain ⟨first, others⟩ := holds_cons.mp holds
    have bound : d.m_end < d.capacity := by omega
    have fits : d.m_start + 1 ≤ d.m_buffer.length := by
      change _ ≤ d.capacity
      omega
    have room := length_destruct fits
    have stays := holds_destruct others fits (by omega)
    rw [Deque.removeFirst, destruct_one first fits, Option.bind_eq_bind, Option.bind_some,
      if_neg (by omega)]
    refine ⟨_, rfl, ?_, .straight (.inl ?_) ?_ stays⟩
    · change (overwrite _ _ _).length = 0 ∨ 16 ≤ (overwrite _ _ _).length
      rw [room]
      exact sized
    · change _ < (overwrite _ _ _).length
      rw [room]
      exact bound
    · dsimp only
      omega
  | @wrapped front back ends before inside length holds holds' =>
    cases front with
    | nil =>
      rw [List.length_nil] at ends
      omega
    | cons y front =>
      have same' : x :: xs = y :: (front ++ back) := same
      obtain ⟨rfl, rfl⟩ := List.cons.inj same'
      obtain ⟨first, others⟩ := holds_cons.mp holds
      rw [List.length_cons] at ends
      have fits : d.m_start + 1 ≤ d.m_buffer.length := by
        change _ ≤ d.capacity
        omega
      have room := length_destruct fits
      have stays := holds_destruct others fits (by omega)
      have stays' := holds_destruct holds' fits (by omega)
      rw [Deque.removeFirst, destruct_one first fits, Option.bind_eq_bind, Option.bind_some]
      refine ⟨_, rfl, ?_, ?_⟩
      · change (overwrite _ _ _).length = 0 ∨ 16 ≤ (overwrite _ _ _).length
        rw [room]
        exact sized
      · by_cases last : d.m_start = d.capacity - 1
        · rw [if_pos last]
          obtain rfl := List.eq_nil_of_length_eq_zero (by omega : front.length = 0)
          rw [List.nil_append]
          refine .straight (.inl ?_) ?_ stays'
          · change _ < (overwrite _ _ _).length
            rw [room]
            exact Nat.lt_trans before inside
          · dsimp only
            omega
        · rw [if_neg last]
          have next : d.m_start + 1 < d.capacity := by omega
          refine .wrapped ?_ (Nat.lt_succ_of_lt before) ?_ length stays stays'
          · change _ = (overwrite _ _ _).length
            rw [room]
            change d.m_start + 1 + front.length = d.capacity
            omega
          · change _ < (overwrite _ _ _).length
            rw [room]
            exact next

theorem holds_middle {before after : List α} :
    Holds buffer first ((before ++ x :: after).map some) ↔
      Holds buffer first (before.map some) ∧ Holds buffer (first + before.length) ([x].map some) ∧
        Holds buffer (first + before.length + 1) (after.map some) := by
  rw [List.map_append, holds_append, List.length_map, holds_cons]

/-- What `remove` needs of a stretch: the elements without one of them, and the rest as it was. -/
structure Removed (buffer buffer' : List (Option α)) (first : Nat) (xs : List α) (dst : Nat)
    (xs' : List α) : Prop where
  length : buffer'.length = buffer.length
  holds : Holds buffer' dst (xs'.map some)
  others : ∀ start (others : List α), Holds buffer start (others.map some) →
    (start + others.length ≤ first ∨ first + xs.length ≤ start) →
      Holds buffer' start (others.map some)

/-- An element is destructed, and the ones before it move up by one place. -/
theorem remove_up {before after : List α}
    (holds : Holds buffer first ((before ++ x :: after).map some))
    (fits : first + (before ++ x :: after).length ≤ buffer.length) :
    ∃ buffer' buffer'',
      destruct buffer (first + before.length) (first + before.length + 1) = some buffer' ∧
      moveOverlapping buffer' first (first + before.length) (first + 1) = some buffer'' ∧
      Removed buffer buffer'' first (before ++ x :: after) (first + 1) (before ++ after) := by
  obtain ⟨front, middle, back⟩ := holds_middle.mp holds
  rw [List.length_append, List.length_cons] at fits
  have fits1 : first + before.length + 1 ≤ buffer.length := by omega
  have room := length_destruct fits1
  have front' := holds_destruct front fits1 (by omega)
  have fits2 : first + before.length ≤
      (overwrite buffer (first + before.length) (List.replicate 1 none)).length := by omega
  have room2 := length_destruct fits2
  have fits3 : first + 1 + before.length ≤ (overwrite (overwrite buffer (first + before.length)
      (List.replicate 1 none)) first (List.replicate before.length none)).length := by omega
  refine ⟨_, _, destruct_one middle fits1, moveOverlapping_eq front' fits2 rfl (by omega), ?_, ?_, ?_⟩
  · rw [length_construct fits3, room2, room]
  · rw [List.map_append, holds_append, List.length_map]
    refine ⟨holds_construct fits3, ?_⟩
    rw [Nat.add_right_comm]
    exact holds_apart (holds_destruct (holds_destruct back fits1 (by omega)) fits2 (by omega)) fits3
      (by omega)
  · intro start others stays apart
    rw [List.length_append, List.length_cons] at apart
    exact holds_apart (holds_destruct (holds_destruct stays fits1 (by omega)) fits2 (by omega)) fits3
      (by omega)

/-- An element is destructed, and the ones behind it move down by one place. -/
theorem remove_down {before after : List α}
    (holds : Holds buffer first ((before ++ x :: after).map some))
    (fits : first + (before ++ x :: after).length ≤ buffer.length)
    (ends : first + (before ++ x :: after).length = last) :
    ∃ buffer' buffer'',
      destruct buffer (first + before.length) (first + before.length + 1) = some buffer' ∧
      moveOverlapping buffer' (first + before.length + 1) last (first + before.length) =
        some buffer'' ∧
      Removed buffer buffer'' first (before ++ x :: after) first (before ++ after) := by
  obtain ⟨front, middle, back⟩ := holds_middle.mp holds
  rw [List.length_append, List.length_cons] at fits ends
  have fits1 : first + before.length + 1 ≤ buffer.length := by omega
  have room := length_destruct fits1
  have back' := holds_destruct back fits1 (by omega)
  have fits2 : first + before.length + 1 + after.length ≤
      (overwrite buffer (first + before.length) (List.replicate 1 none)).length := by omega
  have room2 := length_destruct fits2
  have fits3 : first + before.length + after.length ≤ (overwrite (overwrite buffer
      (first + before.length) (List.replicate 1 none)) (first + before.length + 1)
      (List.replicate after.length none)).length := by omega
  refine ⟨_, _, destruct_one middle fits1,
    moveOverlapping_eq back' fits2 (by omega) (by omega), ?_, ?_, ?_⟩
  · rw [length_construct fits3, room2, room]
  · rw [List.map_append, holds_append, List.length_map]
    refine ⟨?_, holds_construct fits3⟩
    exact holds_apart (holds_destruct (holds_destruct front fits1 (by omega)) fits2 (by omega)) fits3
      (by omega)
  · intro start others stays apart
    rw [List.length_append, List.length_cons] at apart
    exact holds_apart (holds_destruct (holds_destruct stays fits1 (by omega)) fits2 (by omega)) fits3
      (by omega)

/-- The iterators go through the places of the elements. -/
theorem Layout.iterator_eq (layout : Layout d xs) (steps : Nat) (within : steps ≤ xs.length) :
    d.iterator steps =
      if d.m_start ≤ d.m_end ∨ d.m_start + steps < d.capacity then d.m_start + steps
      else d.m_start + steps - d.capacity := by
  induction steps with
  | zero =>
    rw [iterator]
    cases layout with
    | straight inside ends => rw [if_pos (by omega), Nat.add_zero]
    | wrapped ends before inside length => rw [if_pos (by omega), Nat.add_zero]
  | succ steps ih =>
    rw [iterator, ih (by omega), increment]
    cases layout with
    | straight inside ends => split_ifs <;> omega
    | wrapped ends before inside length =>
      rw [List.length_append] at within
      split_ifs <;> omega

theorem exists_middle {steps : Nat} (within : steps < xs.length) :
    ∃ before x after, xs = before ++ x :: after ∧ steps = before.length := by
  refine ⟨xs.take steps, xs[steps], xs.drop (steps + 1), ?_, ?_⟩
  · rw [List.getElem_cons_drop, List.take_append_drop]
  · rw [List.length_take]
    omega

theorem eraseIdx_middle (before : List α) (x : α) (after : List α) :
    (before ++ x :: after).eraseIdx before.length = before ++ after := by
  rw [List.eraseIdx_append_of_length_le (Nat.le_refl _), Nat.sub_self, List.eraseIdx_cons_zero]

/-- In one stretch the front part moves up. -/
theorem remove_straight {before after : List α} (sized : d.capacity = 0 ∨ 16 ≤ d.capacity)
    (inside : d.m_end < d.capacity) (ends : d.m_start + (before ++ x :: after).length = d.m_end)
    (holds : Holds d.m_buffer d.m_start ((before ++ x :: after).map some)) :
    ∃ d', d.remove (d.m_start + before.length) = some d' ∧ Represents d' (before ++ after) := by
  have fits : d.m_start + (before ++ x :: after).length ≤ d.m_buffer.length := by
    change _ ≤ d.capacity
    omega
  obtain ⟨buffer', buffer'', destructed, moved, removed⟩ := remove_up holds fits
  rw [List.length_append, List.length_cons] at ends
  have room := removed.length
  rw [Deque.remove, if_neg (by omega), destructed, Option.bind_eq_bind, Option.bind_some,
    if_pos (Nat.le_add_right _ _), moved, Option.bind_some,
    Nat.mod_eq_of_lt (by omega)]
  refine ⟨_, rfl, ?_, .straight (.inl ?_) ?_ removed.holds⟩
  · change buffer''.length = 0 ∨ 16 ≤ buffer''.length
    rw [room]
    exact sized
  · change d.m_end < buffer''.length
    rw [room]
    exact inside
  · dsimp only
    rw [List.length_append]
    omega

/-- Around the end of the buffer the front part moves up for an element of the first stretch. -/
theorem remove_wrapped_front {before after back : List α} (sized : d.capacity = 0 ∨ 16 ≤ d.capacity)
    (ends : d.m_start + (before ++ x :: after).length = d.capacity) (low : d.m_end < d.m_start)
    (length : back.length = d.m_end)
    (holds : Holds d.m_buffer d.m_start ((before ++ x :: after).map some))
    (holds' : Holds d.m_buffer 0 (back.map some)) :
    ∃ d', d.remove (d.m_start + before.length) = some d' ∧
      Represents d' (before ++ after ++ back) := by
  obtain ⟨buffer', buffer'', destructed, moved, removed⟩ := remove_up holds (Nat.le_of_eq ends)
  have stays := removed.others 0 back holds' (.inl (by omega))
  have room := removed.length
  rw [List.length_append, List.length_cons] at ends
  rw [Deque.remove, if_neg (by omega), destructed, Option.bind_eq_bind, Option.bind_some,
    if_pos (Nat.le_add_right _ _), moved, Option.bind_some]
  have sized' : buffer''.length = 0 ∨ 16 ≤ buffer''.length := by
    rw [room]
    exact sized
  by_cases last : d.m_start + 1 = d.capacity
  · rw [last, Nat.mod_self]
    have nothing : before ++ after = [] := by
      refine List.eq_nil_of_length_eq_zero ?_
      rw [List.length_append]
      omega
    rw [nothing, List.nil_append]
    refine ⟨_, rfl, sized', .straight (.inl ?_) ?_ stays⟩
    · change d.m_end < buffer''.length
      rw [room]
      change d.m_end < d.capacity
      omega
    · dsimp only
      omega
  · have next : d.m_start + 1 < d.capacity := by omega
    rw [Nat.mod_eq_of_lt next]
    refine ⟨_, rfl, sized', .wrapped ?_ (Nat.lt_succ_of_lt low) ?_ length removed.holds stays⟩
    · change d.m_start + 1 + (before ++ after).length = buffer''.length
      rw [room, List.length_append]
      change _ = d.capacity
      omega
    · change d.m_start + 1 < buffer''.length
      rw [room]
      exact next

/-- For an element of the second stretch the back part moves down. -/
theorem remove_wrapped_back {front before after : List α} (sized : d.capacity = 0 ∨ 16 ≤ d.capacity)
    (ends : d.m_start + front.length = d.capacity) (low : d.m_end < d.m_start)
    (inside : d.m_start < d.capacity) (length : (before ++ x :: after).length = d.m_end)
    (holds : Holds d.m_buffer d.m_start (front.map some))
    (holds' : Holds d.m_buffer 0 ((before ++ x :: after).map some)) :
    ∃ d', d.remove before.length = some d' ∧ Represents d' (front ++ (before ++ after)) := by
  have fits : 0 + (before ++ x :: after).length ≤ d.m_buffer.length := by
    change _ ≤ d.capacity
    omega
  obtain ⟨buffer', buffer'', destructed, moved, removed⟩ :=
    remove_down holds' fits ((Nat.zero_add _).trans length)
  have stays := removed.others d.m_start front holds (.inr (by omega))
  have room := removed.length
  rw [Nat.zero_add] at destructed moved
  rw [List.length_append, List.length_cons] at length
  have shorter : (d.m_end - 1 + d.capacity) % d.capacity = d.m_end - 1 := by
    rw [Nat.add_mod_right, Nat.mod_eq_of_lt (by omega)]
  rw [Deque.remove, if_neg (by omega), destructed, Option.bind_eq_bind, Option.bind_some,
    if_neg (by omega), moved, Option.bind_some, shorter]
  refine ⟨_, rfl, ?_, .wrapped ?_ ?_ ?_ ?_ stays removed.holds⟩
  · change buffer''.length = 0 ∨ 16 ≤ buffer''.length
    rw [room]
    exact sized
  · change d.m_start + front.length = buffer''.length
    rw [room]
    exact ends
  · dsimp only
    omega
  · change d.m_start < buffer''.length
    rw [room]
    exact inside
  · dsimp only
    rw [List.length_append]
    omega

/-- At the end nothing is removed, and an element elsewhere leaves the others in their order. -/
theorem Represents.remove (represents : Represents d xs) (steps : Nat) (within : steps ≤ xs.length) :
    ∃ d', d.remove (d.iterator steps) = some d' ∧ Represents d' (xs.eraseIdx steps) := by
  obtain ⟨sized, layout⟩ := represents
  rw [layout.iterator_eq steps within]
  rcases Nat.lt_or_eq_of_le within with inner | rfl
  · cases layout with
    | straight inside ends holds =>
      obtain ⟨before, x, after, rfl, rfl⟩ := exists_middle inner
      rw [if_pos (by omega), eraseIdx_middle]
      exact remove_straight sized (by omega) ends holds
    | @wrapped front back ends low inside length holds holds' =>
      by_cases first : steps < front.length
      · obtain ⟨before, x, after, rfl, rfl⟩ := exists_middle first
        rw [if_pos (.inr (by omega)), List.eraseIdx_append_of_lt_length first, eraseIdx_middle]
        exact remove_wrapped_front sized ends low length holds holds'
      · obtain ⟨rest, rfl⟩ := Nat.exists_eq_add_of_le (Nat.le_of_not_lt first)
        rw [List.length_append] at inner
        obtain ⟨before, x, after, rfl, rfl⟩ := exists_middle (by omega : rest < back.length)
        rw [if_neg (by omega), List.eraseIdx_append_of_length_le (by omega), Nat.add_sub_cancel_left,
          eraseIdx_middle, ← Nat.add_assoc, ends, Nat.add_sub_cancel_left]
        exact remove_wrapped_back sized ends low inside length holds holds'
  · have last : (if d.m_start ≤ d.m_end ∨ d.m_start + xs.length < d.capacity then
        d.m_start + xs.length else d.m_start + xs.length - d.capacity) = d.m_end := by
      cases layout with
      | straight inside ends => rw [if_pos (by omega), ends]
      | wrapped ends low inside length =>
        rw [List.length_append, if_neg (by omega)]
        omega
    rw [last, Deque.remove, if_pos rfl, List.eraseIdx_of_length_le (Nat.le_refl _)]
    exact ⟨d, rfl, sized, layout⟩

/-- Every element is destructed, so the buffer is as good as a new one. -/
theorem Represents.destroyAll (represents : Represents d xs) :
    ∃ buffer, d.destroyAll = some buffer ∧ buffer.length = d.capacity := by
  obtain ⟨-, layout⟩ := represents
  unfold Deque.destroyAll
  cases layout with
  | straight inside ends holds =>
    have fits : d.m_start + xs.length ≤ d.m_buffer.length := by
      change _ ≤ d.capacity
      omega
    rw [if_pos (by omega), destruct_eq holds fits ends]
    exact ⟨_, rfl, length_destruct fits⟩
  | @wrapped front back ends low inside length holds holds' =>
    have fits : 0 + back.length ≤ d.m_buffer.length := by
      change _ ≤ d.capacity
      omega
    have room := length_destruct fits
    have fits2 : d.m_start + front.length ≤
        (overwrite d.m_buffer 0 (List.replicate back.length none)).length := by
      rw [room]
      exact Nat.le_of_eq ends
    have stays := holds_destruct holds fits (by omega)
    rw [if_neg (by omega), destruct_eq holds' fits (by omega), Option.bind_eq_bind, Option.bind_some,
      destruct_eq stays fits2 ends]
    exact ⟨_, rfl, (length_destruct fits2).trans room⟩

theorem Represents.clear (represents : Represents d xs) :
    ∃ d', d.clear = some d' ∧ Represents d' [] := by
  obtain ⟨buffer, destroyed, room⟩ := represents.destroyAll
  have sized := represents.sized
  rw [Deque.clear, destroyed]
  refine ⟨_, rfl, ?_, .straight ?_ rfl holds_nil⟩
  · change buffer.length = 0 ∨ 16 ≤ buffer.length
    omega
  · change 0 < buffer.length ∨ buffer.length = 0 ∧ 0 = 0
    omega

theorem Represents.copy (represents : Represents d xs) :
    ∃ d', d.copy = some d' ∧ Represents d' xs := by
  obtain ⟨sized, layout⟩ := represents
  have fresh : (allocateBuffer d.capacity : List (Option α)).length = d.capacity :=
    List.length_replicate
  unfold Deque.copy
  dsimp only
  cases layout with
  | straight inside ends holds =>
    have fits : d.m_start + xs.length ≤ d.m_buffer.length := by
      change _ ≤ d.capacity
      omega
    have fits' : d.m_start + xs.length ≤ (allocateBuffer d.capacity : List (Option α)).length := by
      rw [fresh]
      exact fits
    have room := length_construct fits'
    rw [if_pos (by omega), uninitializedCopy_eq holds fits ends fits']
    refine ⟨_, rfl, ?_, .straight ?_ ends (holds_construct fits')⟩
    · change (overwrite _ _ _).length = 0 ∨ 16 ≤ (overwrite _ _ _).length
      rw [room, fresh]
      exact sized
    · change d.m_end < (overwrite _ _ _).length ∨ (overwrite _ _ _).length = 0 ∧ d.m_end = 0
      rw [room, fresh]
      exact inside
  | @wrapped front back ends low inside length holds holds' =>
    have fits : 0 + back.length ≤ d.m_buffer.length := by
      change _ ≤ d.capacity
      omega
    have fits' : 0 + back.length ≤ (allocateBuffer d.capacity : List (Option α)).length := by
      rw [fresh]
      exact fits
    have room := length_construct fits'
    have fits2 : d.m_start + front.length ≤
        (overwrite (allocateBuffer d.capacity) 0 (back.map some)).length := by
      rw [room, fresh]
      exact Nat.le_of_eq ends
    have room2 := length_construct fits2
    rw [if_neg (by omega), uninitializedCopy_eq holds' fits (by omega) fits', Option.bind_eq_bind,
      Option.bind_some, uninitializedCopy_eq holds (Nat.le_of_eq ends) ends fits2]
    refine ⟨_, rfl, ?_, .wrapped ?_ low ?_ length (holds_construct fits2)
      (holds_apart (holds_construct fits') fits2 (by omega))⟩
    · change (overwrite _ _ _).length = 0 ∨ 16 ≤ (overwrite _ _ _).length
      rw [room2, room, fresh]
      exact sized
    · change _ = (overwrite _ _ _).length
      rw [room2, room, fresh]
      exact ends
    · change _ < (overwrite _ _ _).length
      rw [room2, room, fresh]
      exact inside

theorem Layout.getElem? (layout : Layout d xs) {steps : Nat} (within : steps < xs.length) :
    d.m_buffer[d.iterator steps]? = some (some xs[steps]) := by
  rw [layout.iterator_eq steps (Nat.le_of_lt within)]
  cases layout with
  | straight inside ends holds =>
    have found := holds.getElem? (by rwa [List.length_map] : steps < (xs.map some).length)
    rw [if_pos (by omega), found, List.getElem_map]
  | @wrapped front back ends low inside length holds holds' =>
    by_cases first : steps < front.length
    · have found := holds.getElem? (by rwa [List.length_map] : steps < (front.map some).length)
      rw [if_pos (.inr (by omega)), found, List.getElem_map, List.getElem_append_left first]
    · rw [List.length_append] at within
      have there : d.m_start + steps - d.capacity = 0 + (steps - front.length) := by omega
      have found := holds'.getElem?
        (by rw [List.length_map]; omega : steps - front.length < (back.map some).length)
      rw [if_neg (by omega), there, found, List.getElem_map,
        List.getElem_append_right (Nat.le_of_not_lt first)]

theorem Layout.iterator_last (layout : Layout d xs) : d.iterator xs.length = d.m_end := by
  rw [layout.iterator_eq _ (Nat.le_refl _)]
  cases layout with
  | straight inside ends => rw [if_pos (by omega), ends]
  | wrapped ends low inside length =>
    rw [List.length_append, if_neg (by omega)]
    omega

theorem Layout.iterator_ne (layout : Layout d xs) {steps : Nat} (within : steps < xs.length) :
    d.iterator steps ≠ d.m_end := by
  rw [layout.iterator_eq steps (Nat.le_of_lt within)]
  cases layout with
  | straight inside ends => split_ifs <;> omega
  | wrapped ends low inside length =>
    rw [List.length_append] at within
    split_ifs <;> omega

theorem Layout.traverseFrom_eq (layout : Layout d xs) (left steps fuel : Nat)
    (rest : steps + left = xs.length) (enough : left < fuel) :
    d.traverseFrom fuel (d.iterator steps) = some (xs.drop steps) := by
  induction left generalizing steps fuel with
  | zero =>
    obtain ⟨fuel, rfl⟩ := Nat.exists_eq_add_of_lt enough
    rw [Nat.add_zero] at rest
    rw [rest, traverseFrom, layout.iterator_last, if_pos rfl, List.drop_length]
  | succ left ih =>
    obtain ⟨fuel, rfl⟩ : ∃ more, fuel = more + 1 := ⟨fuel - 1, by omega⟩
    have within : steps < xs.length := by omega
    have later := ih (steps + 1) fuel (by omega) (by omega)
    rw [traverseFrom, if_neg (layout.iterator_ne within), layout.getElem? within]
    change (do
      let others ← d.traverseFrom fuel (d.iterator (steps + 1))
      some (xs[steps] :: others)) = _
    rw [later, Option.bind_eq_bind, Option.bind_some, List.getElem_cons_drop]

/-- Iterating yields the elements of the list in order. -/
theorem Represents.traverse_eq (represents : Represents d xs) : d.traverse = some xs := by
  have layout := represents.layout
  have short : xs.length < d.capacity + 1 := by
    cases layout with
    | straight inside ends => omega
    | wrapped ends low inside length =>
      rw [List.length_append]
      omega
  exact layout.traverseFrom_eq xs.length 0 _ (Nat.zero_add _) short

theorem represents_create : Represents (create : Deque α) [] :=
  ⟨.inl rfl, .straight (.inr ⟨rfl, rfl⟩) rfl holds_nil⟩

/-- The operations on deques that have names. -/
inductive Op (α : Type) where
  | append (k : Nat) (value : α)
  | prepend (k : Nat) (value : α)
  | removeFirst (k : Nat)
  | remove (k steps : Nat)
  | clear (k : Nat)
  | assign (k other : Nat)
  | swap (k other : Nat)

/-- Assignment copies, swaps, and destroys what it replaced. -/
def step (deques : Nat → Deque α) : Op α → Option (Nat → Deque α)
  | .append k value => do some (Function.update deques k (← (deques k).append value))
  | .prepend k value => do some (Function.update deques k (← (deques k).prepend value))
  | .removeFirst k => do some (Function.update deques k (← (deques k).removeFirst))
  | .remove k steps => do
    some (Function.update deques k (← (deques k).remove ((deques k).iterator steps)))
  | .clear k => do some (Function.update deques k (← (deques k).clear))
  | .assign k other => do
    let copy ← (deques other).copy
    let _ ← (deques k).destroyAll
    some (Function.update deques k copy)
  | .swap k other => some (Function.update (Function.update deques k (deques other)) other (deques k))

/-- The same operations on lists. The first element is removed only where there is one, and an iterator
stands at an element or at the end. -/
def listStep (lists : Nat → List α) : Op α → Option (Nat → List α)
  | .append k value => some (Function.update lists k (lists k ++ [value]))
  | .prepend k value => some (Function.update lists k (value :: lists k))
  | .removeFirst k =>
    match lists k with
    | [] => none
    | _ :: xs => some (Function.update lists k xs)
  | .remove k steps =>
    if steps ≤ (lists k).length then some (Function.update lists k ((lists k).eraseIdx steps))
    else none
  | .clear k => some (Function.update lists k [])
  | .assign k other => some (Function.update lists k (lists other))
  | .swap k other => some (Function.update (Function.update lists k (lists other)) other (lists k))

def run (deques : Nat → Deque α) (ops : List (Op α)) : Option (Nat → Deque α) :=
  ops.foldlM step deques

def listRun (lists : Nat → List α) (ops : List (Op α)) : Option (Nat → List α) :=
  ops.foldlM listStep lists

theorem represents_update {deques : Nat → Deque α} {lists : Nat → List α}
    (represents : ∀ k, Represents (deques k) (lists k)) (k : Nat) (new : Represents d xs) :
    ∀ j, Represents (Function.update deques k d j) (Function.update lists k xs j) := by
  intro j
  by_cases same : j = k
  · subst same
    rw [Function.update_self, Function.update_self]
    exact new
  · rw [Function.update_of_ne same, Function.update_of_ne same]
    exact represents j

/-- Each operation on the deques does to their lists what it does to lists. -/
theorem step_represents {deques : Nat → Deque α} {lists lists' : Nat → List α}
    (represents : ∀ k, Represents (deques k) (lists k)) {op : Op α}
    (allowed : listStep lists op = some lists') :
    ∃ deques', step deques op = some deques' ∧ ∀ k, Represents (deques' k) (lists' k) := by
  cases op with
  | append k value =>
    obtain ⟨d', done, new⟩ := (represents k).append value
    rw [step, done, ← Option.some.inj allowed]
    exact ⟨_, rfl, represents_update represents k new⟩
  | prepend k value =>
    obtain ⟨d', done, new⟩ := (represents k).prepend value
    rw [step, done, ← Option.some.inj allowed]
    exact ⟨_, rfl, represents_update represents k new⟩
  | removeFirst k =>
    rw [listStep] at allowed
    split at allowed
    · cases allowed
    · rename_i x xs found
      obtain ⟨d', done, new⟩ := Represents.removeFirst (found ▸ represents k)
      rw [step, done, ← Option.some.inj allowed]
      exact ⟨_, rfl, represents_update represents k new⟩
  | remove k steps =>
    rw [listStep] at allowed
    split at allowed
    · rename_i within
      obtain ⟨d', done, new⟩ := (represents k).remove steps within
      rw [step, done, ← Option.some.inj allowed]
      exact ⟨_, rfl, represents_update represents k new⟩
    · cases allowed
  | clear k =>
    obtain ⟨d', done, new⟩ := (represents k).clear
    rw [step, done, ← Option.some.inj allowed]
    exact ⟨_, rfl, represents_update represents k new⟩
  | assign k other =>
    obtain ⟨d', done, new⟩ := (represents other).copy
    obtain ⟨buffer, destroyed, -⟩ := (represents k).destroyAll
    rw [step, done, destroyed, ← Option.some.inj allowed]
    exact ⟨_, rfl, represents_update represents k new⟩
  | swap k other =>
    rw [step, ← Option.some.inj allowed]
    exact ⟨_, rfl, represents_update (represents_update represents k (represents other)) other
      (represents k)⟩

theorem run_represents (ops : List (Op α)) {deques : Nat → Deque α} {lists lists' : Nat → List α}
    (represents : ∀ k, Represents (deques k) (lists k)) (allowed : listRun lists ops = some lists') :
    ∃ deques', run deques ops = some deques' ∧ ∀ k, Represents (deques' k) (lists' k) := by
  induction ops generalizing deques lists with
  | nil =>
    obtain rfl := Option.some.inj allowed
    exact ⟨deques, rfl, represents⟩
  | cons op ops ih =>
    obtain ⟨next, first, others⟩ := Option.bind_eq_some_iff.mp allowed
    obtain ⟨deques', done, represents'⟩ := step_represents represents first
    obtain ⟨last, rest, represents''⟩ := ih represents' others
    refine ⟨last, ?_, represents''⟩
    rw [run, List.foldlM_cons, done]
    exact rest

/-- Deques that start empty do to the end of every run what lists do: no index leaves its buffer, only
constructed elements are read or destructed, and iterating yields the list. -/
theorem run_refines_lists (ops : List (Op α)) (lists : Nat → List α)
    (allowed : listRun (fun _ => []) ops = some lists) :
    ∃ deques, run (fun _ => create) ops = some deques ∧ ∀ k,
      (deques k).traverse = some (lists k) ∧ (deques k).size = (lists k).length ∧
        (deques k).isEmpty = (lists k).isEmpty := by
  obtain ⟨deques, done, represents⟩ := run_represents ops (fun _ => represents_create) allowed
  exact ⟨deques, done, fun k => ⟨(represents k).traverse_eq, (represents k).layout.size_eq,
    (represents k).layout.isEmpty_eq⟩⟩

end

/-- Two elements are put at the ends, and one of them is removed. -/
theorem run_refines_lists_two :
    ∃ deques, run (fun _ => create) [.append 0 'a', .prepend 0 'b', .remove 0 1] = some deques ∧
      ∀ k, (deques k).traverse =
          some (Function.update (Function.update (Function.update (fun _ => []) 0 ['a']) 0 ['b', 'a']) 0
            ['b'] k) ∧
        (deques k).size = (Function.update (Function.update (Function.update (fun _ => []) 0 ['a']) 0
            ['b', 'a']) 0 ['b'] k).length ∧
        (deques k).isEmpty = (Function.update (Function.update (Function.update (fun _ => []) 0 ['a']) 0
            ['b', 'a']) 0 ['b'] k).isEmpty :=
  run_refines_lists [.append 0 'a', .prepend 0 'b', .remove 0 1] _ rfl

end Deque
end WkcBrowser.Wtf
