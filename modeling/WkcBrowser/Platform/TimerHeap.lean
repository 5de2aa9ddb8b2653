import Mathlib.Data.Prod.Lex
import WkcBrowser.Platform.ThreadTimers

/-! The heap of the timers of a thread. It holds the timers that have a next fire time, each knows its
index, and the timer that comes first is the first to fire. The wrapping counter orders timers of one
time as long as they are not too far apart. -/

namespace WkcBrowser.Platform

open Lib BinaryHeap

namespace ThreadTimers

variable {T : Type} [LinearOrder T] [Zero T]

/-- Timers fire in the order of their times, those of one time in the order of their scheduling. -/
def key (s : ThreadTimers T) (t : Nat) : WithBot T ×ₗ ℕ :=
  toLex ((s.timers t).nextFireTime, (s.timers t).scheduling)

/-- Fewer than `2 ^ 31 - 1` schedulings separate any two active timers. -/
def Spread (s : ThreadTimers T) : Prop :=
  ∀ a b, s.Active a → s.Active b → (s.timers a).scheduling < (s.timers b).scheduling + 2147483647

/-- The counter tells the timers apart. -/
structure Numbered (s : ThreadTimers T) (member : Nat → Prop) : Prop where
  order : ∀ t, member t →
    (s.timers t).heapInsertionOrder = BitVec.ofNat 32 (s.timers t).scheduling
  distinct : ∀ a b, member a → member b → (s.timers a).scheduling = (s.timers b).scheduling → a = b
  spread : ∀ a b, member a → member b →
    (s.timers a).scheduling < (s.timers b).scheduling + 2147483647

/-- Active timers have the numbers of different schedulings, in the past. -/
structure Booked (s : ThreadTimers T) : Prop where
  finite : ∀ t, (s.timers t).nextFireTime ≠ ⊥
  order : ∀ t, s.Active t →
    (s.timers t).heapInsertionOrder = BitVec.ofNat 32 (s.timers t).scheduling
  distinct : ∀ a b, s.Active a → s.Active b →
    (s.timers a).scheduling = (s.timers b).scheduling → a = b
  earlier : ∀ t, s.Active t → (s.timers t).scheduling < s.schedulings
  counter : s.currentHeapInsertionOrder = BitVec.ofNat 32 s.schedulings

/-- The heap holds the active timers in order, and the others know that they are not in it. -/
structure Sorted (s : ThreadTimers T) : Prop extends Booked s where
  holds : s.timerHeap.Holds s.size s.Active
  idle : ∀ t, ¬s.Active t → s.timerHeap.index t = none
  ordered : Ordered s.key s.timerHeap s.size

section
variable {s s' : ThreadTimers T} {member : Nat → Prop} {t : Nat}

theorem wraps {m n : Nat} (different : m ≠ n) (above : n < m + 2147483647)
    (below : m < n + 2147483647) :
    (BitVec.ofNat 32 n - BitVec.ofNat 32 m).toNat < 2147483647 ↔ m < n := by
  simp only [BitVec.toNat_sub, BitVec.toNat_ofNat]
  omega

theorem key_lt_key {a b : Nat} : s.key a < s.key b ↔
    (s.timers a).nextFireTime < (s.timers b).nextFireTime ∨
      (s.timers a).nextFireTime = (s.timers b).nextFireTime ∧
        (s.timers a).scheduling < (s.timers b).scheduling :=
  Prod.Lex.toLex_lt_toLex

theorem before_of_ne {a b : Nat}
    (different : (s.timers a).nextFireTime ≠ (s.timers b).nextFireTime) :
    s.before a b = true ↔ s.key a < s.key b := by
  rw [key_lt_key, before, less, if_pos different, decide_eq_true_iff]
  exact ⟨.inl, fun lower => lower.resolve_right fun same => different same.1⟩

theorem before_of_eq {a b : Nat}
    (same : (s.timers a).nextFireTime = (s.timers b).nextFireTime) :
    s.before a b = true ↔
      ((s.timers b).heapInsertionOrder - (s.timers a).heapInsertionOrder).toNat < 2147483647 := by
  rw [before, less, if_neg (not_not.mpr same), decide_eq_true_iff]

theorem Numbered.agrees (numbered : Numbered s member) : Agrees s.before s.key member := by
  intro a b mem_a mem_b different
  by_cases same : (s.timers a).nextFireTime = (s.timers b).nextFireTime
  · rw [before_of_eq same, numbered.order a mem_a, numbered.order b mem_b,
      wraps (fun equal => different (numbered.distinct a b mem_a mem_b equal))
        (numbered.spread b a mem_b mem_a) (numbered.spread a b mem_a mem_b), key_lt_key]
    exact ⟨fun later => .inr ⟨same, later⟩, fun lower => by
      obtain lower | ⟨-, later⟩ := lower
      · exact absurd same lower.ne
      · exact later⟩
  · exact before_of_ne same

omit [LinearOrder T] in
theorem Booked.numbered (booked : Booked s) (spread : Spread s) : Numbered s s.Active :=
  ⟨booked.order, booked.distinct, spread⟩

omit [LinearOrder T] in
/-- Timers that are told apart are still told apart when they keep their numbers. -/
theorem Numbered.congr {member' : Nat → Prop} (numbered : Numbered s member)
    (fewer : ∀ t, member' t → member t)
    (order : ∀ t, member' t → (s'.timers t).heapInsertionOrder = (s.timers t).heapInsertionOrder)
    (scheduling : ∀ t, member' t → (s'.timers t).scheduling = (s.timers t).scheduling) :
    Numbered s' member' where
  order t mem := by
    rw [order t mem, scheduling t mem]
    exact numbered.order t (fewer t mem)
  distinct a b mem_a mem_b := by
    rw [scheduling a mem_a, scheduling b mem_b]
    exact numbered.distinct a b (fewer a mem_a) (fewer b mem_b)
  spread a b mem_a mem_b := by
    rw [scheduling a mem_a, scheduling b mem_b]
    exact numbered.spread a b (fewer a mem_a) (fewer b mem_b)

/-- Where a timer is in the heap its index tells. -/
theorem heapDecreaseKey_eq (holds : s.timerHeap.Holds s.size member) (mem : member t) :
    ∃ i < s.size, s.timerHeap.entries i = t ∧
      s.heapDecreaseKey t = { s with timerHeap := s.timerHeap.siftUp s.before i t } := by
  obtain ⟨i, i_lt, rfl⟩ := (holds.members t).mp mem
  refine ⟨i, i_lt, rfl, ?_⟩
  simp only [heapDecreaseKey, holds.indexed i i_lt]

/-- The timer with the least of all keys. -/
def lowered (s : ThreadTimers T) (t : Nat) : ThreadTimers T :=
  s.setTimer t { s.timers t with nextFireTime := ⊥ }

omit [LinearOrder T] in
theorem lowered_timers_of_ne {a : Nat} (different : a ≠ t) :
    (s.lowered t).timers a = s.timers a := setTimer_timers_of_ne different

omit [LinearOrder T] in
theorem lowered_time : ((s.lowered t).timers t).nextFireTime = ⊥ := by
  rw [lowered, setTimer_timers_self]

omit [LinearOrder T] in
theorem lowered_key_of_ne {a : Nat} (different : a ≠ t) : (s.lowered t).key a = s.key a := by
  rw [key, lowered_timers_of_ne different, key]

theorem agrees_lowered (numbered : Numbered s fun a => member a ∧ a ≠ t)
    (finite : ∀ a, a ≠ t → (s.timers a).nextFireTime ≠ ⊥) :
    Agrees (s.lowered t).before (s.lowered t).key member := by
  have apart : ∀ a, a ≠ t →
      ((s.lowered t).timers a).nextFireTime ≠ ((s.lowered t).timers t).nextFireTime := by
    intro a different
    rw [lowered_time, lowered_timers_of_ne different]
    exact finite a different
  intro a b mem_a mem_b different
  by_cases first : a = t
  · rw [first] at different ⊢
    exact before_of_ne (apart b different.symm).symm
  by_cases second : b = t
  · rw [second] at different ⊢
    exact before_of_ne (apart a different)
  · have others : Numbered (s.lowered t) fun a => member a ∧ a ≠ t :=
      numbered.congr (fun _ => id) (fun _ mem => by rw [lowered_timers_of_ne mem.2])
        fun _ mem => by rw [lowered_timers_of_ne mem.2]
    exact others.agrees a b ⟨mem_a, first⟩ ⟨mem_b, second⟩ different

/-- A timer that is popped is at the end, and the others are in order before it. -/
structure Popped (s : ThreadTimers T) (member : Nat → Prop) (t : Nat) (heap : BinaryHeap Nat) :
    Prop where
  last : heap.entries (s.size - 1) = t
  holds : heap.Holds (s.size - 1) fun a => member a ∧ a ≠ t
  ordered : Ordered s.key heap (s.size - 1)
  index : heap.index t = some (s.size - 1)
  frame : ∀ a, ¬member a → heap.index a = s.timerHeap.index a

theorem heapPop_spec {old : Nat → WithBot T ×ₗ ℕ} (holds : s.timerHeap.Holds s.size member)
    (ordered : Ordered old s.timerHeap s.size) (mem : member t)
    (others : ∀ a, a ≠ t → s.key a = old a) (finite : ∀ a, a ≠ t → (s.timers a).nextFireTime ≠ ⊥)
    (least : (s.lowered t).key t ≤ old t) (numbered : Numbered s fun a => member a ∧ a ≠ t) :
    ∃ heap, s.heapPop t = { s with timerHeap := heap } ∧ Popped s member t heap := by
  have agrees := agrees_lowered numbered finite
  obtain ⟨i, i_lt, at_i, raised⟩ : ∃ i < s.size, s.timerHeap.entries i = t ∧
      (s.lowered t).heapDecreaseKey t =
        { s.lowered t with timerHeap := s.timerHeap.siftUp (s.lowered t).before i t } :=
    heapDecreaseKey_eq (s := s.lowered t) holds mem
  obtain ⟨held, sorted, frame⟩ := decrease_spec agrees holds ordered i_lt
    (fun a different => (lowered_key_of_ne (at_i ▸ different)).trans (others a (at_i ▸ different)))
    (by rw [at_i]; exact least)
  rw [at_i] at held sorted frame
  generalize up : s.timerHeap.siftUp (s.lowered t).before i t = heap at *
  have positive : 0 < s.size := by omega
  have root : heap.entries 0 = t := by
    obtain ⟨j, j_lt, at_j⟩ := (held.members t).mp mem
    by_contra different
    have first := sorted.root j j_lt
    rw [at_j] at first
    have lower : (s.lowered t).key t < (s.lowered t).key (heap.entries 0) := by
      apply key_lt_key.mpr
      rw [lowered_time, lowered_timers_of_ne different]
      exact .inl (bot_lt_iff_ne_bot.mpr (finite _ different))
    exact absurd first (not_le_of_gt lower)
  obtain ⟨last, rest, order, index, still⟩ := pop_spec
    (fun a b mem_a mem_b => agrees a b mem_a.1 mem_b.1) held sorted positive
  rw [root] at last rest index
  refine ⟨heap.pop (s.lowered t).before s.size, ?_, last, rest, ?_, index, fun a other => ?_⟩
  · have popped : s.heapPop t = ((s.lowered t).heapDecreaseKey t).heapPopMin.setTimer t
        { ((s.lowered t).heapDecreaseKey t).heapPopMin.timers t with
          nextFireTime := (s.timers t).nextFireTime } := rfl
    rw [popped, raised]
    simp only [heapPopMin, setTimer, lowered, Function.update_self, Function.update_idem,
      Function.update_eq_self]
    rfl
  · apply order.congr (le_refl _)
    intro j j_lt
    have other : (heap.pop (s.lowered t).before s.size).entries j ≠ t :=
      ((rest.members _).mpr ⟨j, j_lt, rfl⟩).2
    exact (lowered_key_of_ne other).symm
  · exact (still a other).trans (frame.index a other)

variable {newTime : T}

omit [LinearOrder T] in
theorem schedule_timers_of_ne {a : Nat} (different : a ≠ t) :
    (s.schedule t newTime).timers a = s.timers a := Function.update_of_ne different ..

omit [LinearOrder T] in
theorem schedule_timers_self : (s.schedule t newTime).timers t = { s.timers t with
    nextFireTime := newTime
    heapInsertionOrder := s.currentHeapInsertionOrder
    scheduling := s.schedulings } := Function.update_self ..

omit [LinearOrder T] in
theorem schedule_key_of_ne {a : Nat} (different : a ≠ t) :
    (s.schedule t newTime).key a = s.key a := by
  rw [key, schedule_timers_of_ne different, key]

omit [LinearOrder T] in
theorem active_schedule_of_ne {a : Nat} (different : a ≠ t) :
    (s.schedule t newTime).Active a ↔ s.Active a := by
  rw [Active, schedule_timers_of_ne different, Active]

omit [LinearOrder T] in
theorem active_schedule_self : (s.schedule t newTime).Active t ↔ newTime ≠ 0 := by
  rw [Active, schedule_timers_self]
  exact not_congr WithBot.coe_inj

omit [LinearOrder T] in
/-- A scheduling takes the next number. -/
theorem Booked.schedule (booked : Booked s) : Booked (s.schedule t newTime) where
  finite a := by
    by_cases same : a = t
    · rw [same, schedule_timers_self]
      exact WithBot.coe_ne_bot
    · rw [schedule_timers_of_ne same]
      exact booked.finite a
  order a active := by
    by_cases same : a = t
    · rw [same, schedule_timers_self]
      exact booked.counter
    · rw [schedule_timers_of_ne same]
      exact booked.order a ((active_schedule_of_ne same).mp active)
  distinct a b active_a active_b := by
    by_cases first : a = t
    · by_cases second : b = t
      · exact fun _ => first.trans second.symm
      · rw [first, schedule_timers_self, schedule_timers_of_ne second]
        intro same
        have below := booked.earlier b ((active_schedule_of_ne second).mp active_b)
        exact absurd same below.ne'
    · rw [schedule_timers_of_ne first]
      by_cases second : b = t
      · rw [second, schedule_timers_self]
        intro same
        have below := booked.earlier a ((active_schedule_of_ne first).mp active_a)
        exact absurd same below.ne
      · rw [schedule_timers_of_ne second]
        exact booked.distinct a b ((active_schedule_of_ne first).mp active_a)
          ((active_schedule_of_ne second).mp active_b)
  earlier a active := by
    by_cases same : a = t
    · rw [same, schedule_timers_self]
      exact Nat.lt_succ_self _
    · rw [schedule_timers_of_ne same]
      exact (booked.earlier a ((active_schedule_of_ne same).mp active)).trans (Nat.lt_succ_self _)
  counter := by
    change s.currentHeapInsertionOrder + 1 = BitVec.ofNat 32 (s.schedulings + 1)
    rw [booked.counter]
    exact (BitVec.ofNat_add s.schedulings 1).symm

/-- The heap after a change of the timer holds the active timers in order. -/
structure Moved (s s' : ThreadTimers T) : Prop where
  timers : s'.timers = s.timers
  counter : s'.currentHeapInsertionOrder = s.currentHeapInsertionOrder
  schedulings : s'.schedulings = s.schedulings
  firingTimers : s'.firingTimers = s.firingTimers
  sharedTimer : s'.sharedTimer = s.sharedTimer
  holds : s'.timerHeap.Holds s'.size s.Active
  idle : ∀ a, ¬s.Active a → s'.timerHeap.index a = none
  ordered : Ordered s.key s'.timerHeap s'.size

theorem Moved.sorted (moved : Moved s s') (booked : Booked s) : Sorted s' where
  finite := by
    rw [moved.timers]
    exact booked.finite
  order := by
    simp only [Active, moved.timers]
    exact booked.order
  distinct := by
    simp only [Active, moved.timers]
    exact booked.distinct
  earlier := by
    simp only [Active, moved.timers, moved.schedulings]
    exact booked.earlier
  counter := by
    rw [moved.counter, moved.schedulings]
    exact booked.counter
  holds := by
    have active : s'.Active = s.Active := by
      funext a
      rw [Active, moved.timers, Active]
    rw [active]
    exact moved.holds
  idle a := by
    rw [Active, moved.timers]
    exact moved.idle a
  ordered := by
    have key : s'.key = s.key := by
      funext a
      rw [key, moved.timers, ThreadTimers.key]
    rw [key]
    exact moved.ordered

/-- A timer that had no time comes in. -/
theorem moved_heapInsert (sorted : Sorted s) (inactive : ¬s.Active t) (time : newTime ≠ 0)
    (spread : Spread (s.schedule t newTime)) :
    Moved (s.schedule t newTime) ((s.schedule t newTime).heapInsert t) := by
  have members : ∀ a, (s.schedule t newTime).Active a ↔ a = t ∨ s.Active a := by
    intro a
    by_cases same : a = t
    · rw [same, active_schedule_self]
      exact iff_of_true time (.inl rfl)
    · rw [active_schedule_of_ne same]
      exact (or_iff_right same).symm
  have at_end : (s.timerHeap.place s.size t).entries s.size = t := place_entries_self
  have inserted : (s.schedule t newTime).heapInsert t = { s.schedule t newTime with
      timerHeap := (s.timerHeap.place s.size t).siftUp (s.schedule t newTime).before s.size
        ((s.timerHeap.place s.size t).entries s.size)
      size := s.size + 1 } := by
    have index : (s.timerHeap.place s.size t).index t = some s.size := Function.update_self ..
    exact heapDecreaseKey_of_index index
  have agrees : Agrees (s.schedule t newTime).before (s.schedule t newTime).key
      fun a => a = (s.timerHeap.place s.size t).entries s.size ∨ s.Active a := by
    have numbered := sorted.toBooked.schedule.numbered spread
    rw [at_end]
    exact fun a b mem_a mem_b =>
      numbered.agrees a b ((members a).mpr mem_a) ((members b).mpr mem_b)
  have sorted_before : Ordered (s.schedule t newTime).key (s.timerHeap.place s.size t) s.size := by
    intro i positive i_lt
    have smaller := parent_lt positive
    have other : ∀ j < s.size, s.timerHeap.entries j ≠ t := by
      rintro j j_lt rfl
      exact inactive ((sorted.holds.members _).mpr ⟨j, j_lt, rfl⟩)
    rw [place_entries_of_ne (by omega), place_entries_of_ne (by omega),
      schedule_key_of_ne (other _ (by omega)), schedule_key_of_ne (other _ i_lt)]
    exact sorted.ordered i positive i_lt
  obtain ⟨holds, ordered, frame⟩ := push_spec agrees (sorted.holds.append inactive) sorted_before
    (by rw [at_end]; exact inactive)
  rw [at_end] at holds ordered frame inserted
  rw [inserted]
  refine ⟨rfl, rfl, rfl, rfl, rfl, ?_, fun a idle => ?_, ordered⟩
  · have same : (s.schedule t newTime).Active = fun a => a = t ∨ s.Active a :=
      funext fun a => propext (members a)
    rw [same]
    exact holds
  · have other := mt (members a).mpr idle
    have different : a ≠ t := fun same => other (.inl same)
    refine (frame.index a other).trans ?_
    exact (Function.update_of_ne different ..).trans (sorted.idle a fun active => other (.inr active))

omit [LinearOrder T] in
/-- Timers that keep a time stay active. -/
theorem active_schedule (active : s.Active t) (time : newTime ≠ 0) :
    (s.schedule t newTime).Active = s.Active := by
  funext a
  apply propext
  by_cases same : a = t
  · rw [same, active_schedule_self]
    exact iff_of_true time active
  · exact active_schedule_of_ne same

theorem schedule_key_le (earlier : newTime < (s.timers t).nextFireTime) :
    (s.schedule t newTime).key t ≤ s.key t := by
  apply le_of_lt
  apply Prod.Lex.toLex_lt_toLex.mpr
  rw [schedule_timers_self]
  exact .inl earlier

/-- A timer is set to an earlier time. -/
theorem moved_heapDecreaseKey (sorted : Sorted s) (active : s.Active t) (time : newTime ≠ 0)
    (earlier : newTime < (s.timers t).nextFireTime) (spread : Spread (s.schedule t newTime)) :
    Moved (s.schedule t newTime) ((s.schedule t newTime).heapDecreaseKey t) := by
  have same := active_schedule active time
  obtain ⟨i, i_lt, at_i, decreased⟩ :=
    heapDecreaseKey_eq (s := s.schedule t newTime) sorted.holds active
  have agrees := (sorted.toBooked.schedule.numbered spread).agrees
  rw [same] at agrees
  obtain ⟨holds, ordered, frame⟩ := decrease_spec agrees sorted.holds sorted.ordered i_lt
    (fun a different => schedule_key_of_ne (at_i ▸ different))
    (by
      change (s.schedule t newTime).key ((s.schedule t newTime).timerHeap.entries i) ≤
        s.key ((s.schedule t newTime).timerHeap.entries i)
      rw [at_i]
      exact schedule_key_le earlier)
  change Holds (BinaryHeap.siftUp _ _ i ((s.schedule t newTime).timerHeap.entries i)) _ _ at holds
  change Ordered _ (BinaryHeap.siftUp _ _ i ((s.schedule t newTime).timerHeap.entries i)) _ at ordered
  change Frame _ (BinaryHeap.siftUp _ _ i ((s.schedule t newTime).timerHeap.entries i)) _ _ at frame
  rw [at_i] at holds ordered frame
  rw [decreased]
  refine ⟨rfl, rfl, rfl, rfl, rfl, same ▸ holds, fun a idle => ?_, ordered⟩
  rw [same] at idle
  exact (frame.index a idle).trans (sorted.idle a idle)

/-- A timer that has a new time is popped from the heap in its old order. -/
theorem popped_schedule (sorted : Sorted s) (active : s.Active t)
    (spread : Spread (s.schedule t newTime)) :
    ∃ heap, (s.schedule t newTime).heapPop t = { s.schedule t newTime with timerHeap := heap } ∧
      Popped (s.schedule t newTime) s.Active t heap := by
  have booked : Booked (s.schedule t newTime) := sorted.toBooked.schedule
  apply heapPop_spec (s := s.schedule t newTime) sorted.holds sorted.ordered active
  · exact fun a different => schedule_key_of_ne different
  · exact fun a _ => booked.finite a
  · apply le_of_lt
    apply Prod.Lex.toLex_lt_toLex.mpr
    rw [lowered_time]
    exact .inl (bot_lt_iff_ne_bot.mpr (sorted.finite t))
  · have numbered := booked.numbered spread
    exact numbered.congr (fun a mem => (active_schedule_of_ne mem.2).mpr mem.1)
      (fun _ _ => rfl) fun _ _ => rfl

/-- A timer that was popped leaves the heap. -/
theorem Popped.removeLast {heap : BinaryHeap Nat} (popped : Popped s member t heap)
    (active : ∀ a, s.Active a ↔ member a ∧ a ≠ t)
    (idle : ∀ a, ¬member a → s.timerHeap.index a = none) :
    Moved s (({ s with timerHeap := heap } : ThreadTimers T).removeLast t) := by
  have members : s.Active = fun a => member a ∧ a ≠ t := funext fun a => propext (active a)
  refine ⟨rfl, rfl, rfl, rfl, rfl, ?_, fun a inactive => ?_, popped.ordered⟩
  · rw [members]
    refine ⟨popped.holds.members, fun i i_lt => ?_⟩
    have other : heap.entries i ≠ t := ((popped.holds.members _).mpr ⟨i, i_lt, rfl⟩).2
    exact (Function.update_of_ne other ..).trans (popped.holds.indexed i i_lt)
  · by_cases same : a = t
    · rw [same]
      exact Function.update_self ..
    · have outside : ¬member a := fun mem => inactive ((active a).mpr ⟨mem, same⟩)
      exact (Function.update_of_ne same ..).trans ((popped.frame a outside).trans (idle a outside))

/-- A timer that is stopped leaves the heap. -/
theorem moved_heapDelete (sorted : Sorted s) (active : s.Active t)
    (spread : Spread (s.schedule t 0)) :
    Moved (s.schedule t 0) ((s.schedule t 0).heapDelete t) := by
  obtain ⟨heap, popped, spec⟩ := popped_schedule sorted active spread
  unfold heapDelete
  rw [popped]
  apply spec.removeLast _ sorted.idle
  intro a
  by_cases same : a = t
  · rw [same, active_schedule_self]
    exact iff_of_false (fun absurd_ => absurd_ rfl) fun both => both.2 rfl
  · rw [active_schedule_of_ne same]
    exact (and_iff_left same).symm

/-- The timer without its next fire time, as it is when it fires. -/
def cleared (s : ThreadTimers T) (t : Nat) : ThreadTimers T :=
  s.setTimer t { s.timers t with nextFireTime := (0 : T) }

omit [LinearOrder T] in
theorem cleared_timers_of_ne {a : Nat} (different : a ≠ t) :
    (s.cleared t).timers a = s.timers a := setTimer_timers_of_ne different

omit [LinearOrder T] in
theorem cleared_time : ((s.cleared t).timers t).nextFireTime = (0 : T) := by
  rw [cleared, setTimer_timers_self]

omit [LinearOrder T] in
theorem active_cleared (a : Nat) : (s.cleared t).Active a ↔ s.Active a ∧ a ≠ t := by
  by_cases same : a = t
  · rw [same, Active, cleared_time]
    exact iff_of_false (fun absurd_ => absurd_ rfl) fun both => both.2 rfl
  · rw [Active, cleared_timers_of_ne same]
    exact (and_iff_left same).symm

omit [LinearOrder T] in
theorem Booked.cleared (booked : Booked s) : Booked (s.cleared t) where
  finite a := by
    by_cases same : a = t
    · rw [same, cleared_time]
      exact WithBot.coe_ne_bot
    · rw [cleared_timers_of_ne same]
      exact booked.finite a
  order a active := by
    obtain ⟨mem, different⟩ := (active_cleared a).mp active
    rw [cleared_timers_of_ne different]
    exact booked.order a mem
  distinct a b active_a active_b := by
    obtain ⟨mem_a, a_ne⟩ := (active_cleared a).mp active_a
    obtain ⟨mem_b, b_ne⟩ := (active_cleared b).mp active_b
    rw [cleared_timers_of_ne a_ne, cleared_timers_of_ne b_ne]
    exact booked.distinct a b mem_a mem_b
  earlier a active := by
    obtain ⟨mem, different⟩ := (active_cleared a).mp active
    rw [cleared_timers_of_ne different]
    exact booked.earlier a mem
  counter := booked.counter

/-- The first timer leaves the heap. -/
theorem moved_heapDeleteMin (sorted : Sorted s) (positive : 0 < s.size) (spread : Spread s) :
    Moved (s.cleared (s.timerHeap.entries 0))
      ((s.cleared (s.timerHeap.entries 0)).heapDeleteMin (s.timerHeap.entries 0)) := by
  have agrees : Agrees (s.cleared (s.timerHeap.entries 0)).before s.key
      fun a => s.Active a ∧ a ≠ s.timerHeap.entries 0 := by
    intro a b mem_a mem_b different
    rw [← (sorted.numbered spread).agrees a b mem_a.1 mem_b.1 different]
    simp only [before, less, cleared_timers_of_ne mem_a.2, cleared_timers_of_ne mem_b.2]
  obtain ⟨last, holds, ordered, index, frame⟩ :=
    pop_spec agrees sorted.holds sorted.ordered positive
  have popped : Popped (s.cleared (s.timerHeap.entries 0)) s.Active (s.timerHeap.entries 0)
      (s.timerHeap.pop (s.cleared (s.timerHeap.entries 0)).before s.size) := by
    refine ⟨last, holds, ordered.congr (le_refl _) fun i i_lt => ?_, index, frame⟩
    have other := ((holds.members _).mpr ⟨i, i_lt, rfl⟩).2
    rw [key, cleared_timers_of_ne other, key]
  exact popped.removeLast active_cleared sorted.idle

/-- A timer is set to a later time. -/
theorem moved_heapIncreaseKey (sorted : Sorted s) (active : s.Active t) (time : newTime ≠ 0)
    (spread : Spread (s.schedule t newTime)) :
    Moved (s.schedule t newTime) ((s.schedule t newTime).heapIncreaseKey t) := by
  have same := active_schedule active time
  obtain ⟨heap, popped, spec⟩ := popped_schedule sorted active spread
  have last : heap.entries (s.size - 1) = t := spec.last
  have holds : heap.Holds (s.size - 1) fun a => s.Active a ∧ a ≠ t := spec.holds
  have ordered : Ordered (s.schedule t newTime).key heap (s.size - 1) := spec.ordered
  have all : s.size - 1 + 1 = s.size := by
    obtain ⟨i, i_lt, -⟩ := (sorted.holds.members t).mp active
    omega
  have pushed : (s.schedule t newTime).heapIncreaseKey t = { s.schedule t newTime with
      timerHeap := heap.siftUp (s.schedule t newTime).before (s.size - 1)
        (heap.entries (s.size - 1)) } := by
    have index : heap.index t = some (s.size - 1) := spec.index
    unfold heapIncreaseKey
    rw [popped]
    exact heapDecreaseKey_of_index index
  have members : (fun a => a = heap.entries (s.size - 1) ∨ s.Active a ∧ a ≠ t) = s.Active := by
    funext a
    apply propext
    rw [last]
    by_cases equal : a = t
    · rw [equal]
      exact iff_of_true (.inl rfl) active
    · rw [or_iff_right equal, and_iff_left equal]
  have agrees := (sorted.toBooked.schedule.numbered spread).agrees
  rw [same, ← members] at agrees
  obtain ⟨held, sorted', frame⟩ := push_spec agrees holds ordered fun both => both.2 last
  rw [members, all] at held frame
  rw [all] at sorted'
  rw [pushed]
  refine ⟨rfl, rfl, rfl, rfl, rfl, same ▸ held, fun a idle => ?_, sorted'⟩
  rw [same] at idle
  exact (frame.index a idle).trans ((spec.frame a idle).trans (sorted.idle a idle))

theorem heapDecreaseKey_timers : (s.heapDecreaseKey t).timers = s.timers := by
  unfold heapDecreaseKey
  split <;> rfl

theorem heapPop_timers : (s.heapPop t).timers = s.timers := by
  funext a
  by_cases same : a = t
  · rw [same]
    simp only [heapPop, setTimer, heapPopMin, heapDecreaseKey_timers, Function.update_self]
  · simp only [heapPop, setTimer, heapPopMin, heapDecreaseKey_timers,
      Function.update_of_ne same]

omit [LinearOrder T] in
theorem updateSharedTimer_timers : s.updateSharedTimer.timers = s.timers := by
  unfold updateSharedTimer
  split <;> rfl

/-- Only the scheduled timer changes. -/
theorem setNextFireTime_timers (different : (s.timers t).nextFireTime ≠ newTime) :
    (s.setNextFireTime t newTime).timers = (s.schedule t newTime).timers := by
  have inserted : ((s.schedule t newTime).heapInsert t).timers = (s.schedule t newTime).timers :=
    heapDecreaseKey_timers
  have deleted : ((s.schedule t newTime).heapDelete t).timers = (s.schedule t newTime).timers :=
    heapPop_timers
  have increased : ((s.schedule t newTime).heapIncreaseKey t).timers =
      (s.schedule t newTime).timers := heapDecreaseKey_timers.trans heapPop_timers
  rw [setNextFireTime, if_neg different]
  dsimp only
  split_ifs <;>
    simp only [updateSharedTimer_timers, inserted, deleted, increased, heapDecreaseKey_timers]

/-- A timer whose time changes is moved to its place, and the shared timer is set anew when the timer
was or is the first. -/
theorem setNextFireTime_moved (sorted : Sorted s)
    (different : (s.timers t).nextFireTime ≠ newTime) (spread : Spread (s.schedule t newTime)) :
    ∃ moved, Moved (s.schedule t newTime) moved ∧ s.setNextFireTime t newTime =
      if s.timerHeap.index t = some 0 ∨ moved.timerHeap.index t = some 0 then
        moved.updateSharedTimer
      else moved := by
  rw [setNextFireTime, if_neg different]
  refine ⟨_, ?_, rfl⟩
  by_cases inactive : (s.timers t).nextFireTime = (0 : T)
  · rw [if_pos inactive]
    have time : newTime ≠ 0 := by
      rintro rfl
      exact different inactive
    exact moved_heapInsert sorted (not_not.mpr inactive) time spread
  rw [if_neg inactive]
  by_cases stopped : newTime = 0
  · rw [if_pos stopped]
    subst stopped
    exact moved_heapDelete sorted inactive spread
  rw [if_neg stopped]
  by_cases earlier : newTime < (s.timers t).nextFireTime
  · rw [if_pos earlier]
    exact moved_heapDecreaseKey sorted inactive stopped earlier spread
  · rw [if_neg earlier]
    exact moved_heapIncreaseKey sorted inactive stopped spread

end

end ThreadTimers

end WkcBrowser.Platform
