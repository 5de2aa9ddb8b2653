import Mathlib.Algebra.GroupWithZero.Nat
import WkcBrowser.Platform.TimerHeap

/-! Timers fire in order, and none is forgotten. In every state of a run the shared timer is set for the
first active timer unless a pass is on, and a pass fires the first of the active timers for as long as
one is due. -/

namespace WkcBrowser.Platform

open Lib BinaryHeap

namespace ThreadTimers

variable {T : Type} [LinearOrder T] [Zero T] {s s' : ThreadTimers T} {t : Nat} {newTime : T}

/-- What a shared timer is to be set to: the least next fire time of an active timer, if there is one. -/
def Earliest (s : ThreadTimers T) : Option (WithBot T) → Prop
  | none => ∀ t, ¬s.Active t
  | some time => (∃ t, s.Active t ∧ (s.timers t).nextFireTime = time) ∧
      ∀ t, s.Active t → time ≤ (s.timers t).nextFireTime

/-- Outside of passes the shared timer is armed, and stopped in them. -/
def Armed (s : ThreadTimers T) : Prop :=
  if s.firingTimers then s.sharedTimer = none else Earliest s s.sharedTimer

theorem time_le_of_key_le {a b : Nat} (first : s.key a ≤ s.key b) :
    (s.timers a).nextFireTime ≤ (s.timers b).nextFireTime := by
  obtain lower | ⟨same, -⟩ := Prod.Lex.toLex_le_toLex.mp first
  · exact lower.le
  · exact same.le

/-- The root of the heap is the first of the active timers. -/
theorem Sorted.root (sorted : Sorted s) (positive : 0 < s.size) :
    s.Active (s.timerHeap.entries 0) ∧ s.timerHeap.index (s.timerHeap.entries 0) = some 0 ∧
      ∀ a, s.Active a → s.key (s.timerHeap.entries 0) ≤ s.key a := by
  refine ⟨(sorted.holds.members _).mpr ⟨0, positive, rfl⟩, sorted.holds.indexed 0 positive, ?_⟩
  intro a active
  obtain ⟨i, i_lt, rfl⟩ := (sorted.holds.members a).mp active
  exact sorted.ordered.root i i_lt

theorem Sorted.size_pos (sorted : Sorted s) (active : s.Active t) : 0 < s.size := by
  obtain ⟨i, i_lt, -⟩ := (sorted.holds.members t).mp active
  omega

theorem Sorted.inactive (sorted : Sorted s) (empty : s.size = 0) (a : Nat) : ¬s.Active a := by
  intro active
  have positive := sorted.size_pos active
  omega

theorem Sorted.earliest (sorted : Sorted s) (positive : 0 < s.size) :
    Earliest s (some (s.timers (s.timerHeap.entries 0)).nextFireTime) := by
  obtain ⟨active, -, first⟩ := sorted.root positive
  exact ⟨⟨_, active, rfl⟩, fun a mem => time_le_of_key_le (first a mem)⟩

theorem Sorted.updateSharedTimer (sorted : Sorted s) : Sorted s.updateSharedTimer := by
  unfold ThreadTimers.updateSharedTimer
  split
  · exact { sorted with }
  · exact { sorted with }

theorem Sorted.armed_updateSharedTimer (sorted : Sorted s) : Armed s.updateSharedTimer := by
  unfold Armed ThreadTimers.updateSharedTimer
  cases firing : s.firingTimers with
  | true =>
    simp only [true_or, if_true]
  | false =>
    by_cases empty : s.size = 0
    · simp only [empty, or_true, if_true, Bool.false_eq_true, if_false]
      exact sorted.inactive empty
    · simp only [Bool.false_eq_true, empty, or_self, if_false]
      exact sorted.earliest (Nat.pos_of_ne_zero empty)

/-- As long as a timer is not the first, it has no say in what the shared timer is set to. -/
theorem Earliest.kept {shared : Option (WithBot T)} (earliest : Earliest s shared)
    (sorted : Sorted s) (sorted' : Sorted s') (others : ∀ a, a ≠ t → s'.timers a = s.timers a)
    (was : s.timerHeap.index t ≠ some 0) (is : s'.timerHeap.index t ≠ some 0) :
    Earliest s' shared := by
  have apart : ∀ a, s'.Active a → ∃ b, s.Active b ∧ b ≠ t ∧
      (s.timers b).nextFireTime ≤ (s'.timers a).nextFireTime := by
    intro a active
    obtain ⟨root_active, index, first⟩ := sorted'.root (sorted'.size_pos active)
    have different : s'.timerHeap.entries 0 ≠ t := by
      intro same
      rw [same] at index
      exact is index
    refine ⟨_, ?_, different, ?_⟩
    · rw [Active, others _ different] at root_active
      exact root_active
    · rw [← others _ different]
      exact time_le_of_key_le (first a active)
  cases shared with
  | none =>
    intro a active
    obtain ⟨b, active_b, -⟩ := apart a active
    exact earliest b active_b
  | some time =>
    obtain ⟨⟨r, active_r, rfl⟩, least⟩ := earliest
    constructor
    · obtain ⟨root_active, index, first⟩ := sorted.root (sorted.size_pos active_r)
      have different : s.timerHeap.entries 0 ≠ t := by
        intro same
        rw [same] at index
        exact was index
      refine ⟨s.timerHeap.entries 0, ?_, ?_⟩
      · rw [Active, others _ different]
        exact root_active
      · rw [others _ different]
        exact le_antisymm (time_le_of_key_le (first r active_r)) (least _ root_active)
    · intro a active
      obtain ⟨b, active_b, -, le⟩ := apart a active
      exact (least b active_b).trans le

omit [LinearOrder T] in
theorem updateSharedTimer_firing : s.updateSharedTimer.firingTimers = s.firingTimers := by
  unfold updateSharedTimer
  split <;> rfl

/-- What is to hold of the timers in every state. -/
structure Kept (s : ThreadTimers T) : Prop extends Sorted s where
  armed : Armed s

/-- Setting a next fire time keeps the heap in order and the shared timer armed. -/
theorem Kept.setNextFireTime (kept : Kept s) (spread : Spread (s.setNextFireTime t newTime)) :
    Kept (s.setNextFireTime t newTime) ∧
      (s.setNextFireTime t newTime).firingTimers = s.firingTimers := by
  by_cases same : (s.timers t).nextFireTime = newTime
  · rw [ThreadTimers.setNextFireTime, if_pos same]
    exact ⟨kept, rfl⟩
  rw [Spread] at spread
  simp only [Active, setNextFireTime_timers same] at spread
  obtain ⟨moved, moves, result⟩ := setNextFireTime_moved kept.toSorted same spread
  have sorted := moves.sorted kept.schedule
  rw [result]
  split
  · exact ⟨⟨sorted.updateSharedTimer, sorted.armed_updateSharedTimer⟩,
      updateSharedTimer_firing.trans moves.firingTimers⟩
  · rename_i neither
    refine ⟨⟨sorted, ?_⟩, moves.firingTimers⟩
    have others : ∀ a, a ≠ t → moved.timers a = s.timers a := by
      intro a different
      rw [moves.timers]
      exact schedule_timers_of_ne different
    have armed := kept.armed
    have firing : moved.firingTimers = s.firingTimers := moves.firingTimers
    have shared : moved.sharedTimer = s.sharedTimer := moves.sharedTimer
    unfold Armed at armed ⊢
    rw [firing, shared]
    split
    · rename_i on
      rwa [if_pos on] at armed
    · rename_i off
      rw [if_neg off] at armed
      exact armed.kept kept.toSorted sorted others (fun was => neither (.inl was))
        fun is => neither (.inr is)

section
variable {timers : Nat → TimerBase T}
  (time : ∀ a, (timers a).nextFireTime = (s.timers a).nextFireTime)
  (order : ∀ a, (timers a).heapInsertionOrder = (s.timers a).heapInsertionOrder)
  (scheduling : ∀ a, (timers a).scheduling = (s.timers a).scheduling)
include time

omit [LinearOrder T] in
theorem active_congr : ({ s with timers := timers } : ThreadTimers T).Active = s.Active := by
  funext a
  rw [Active, Active]
  exact congrArg (· ≠ _) (time a)

include scheduling in
omit [LinearOrder T] in
theorem spread_congr : Spread ({ s with timers := timers } : ThreadTimers T) ↔ Spread s := by
  simp only [Spread, active_congr time, scheduling]

include order scheduling

/-- The interval of a timer plays no part in the heap. -/
theorem Kept.congr (kept : Kept s) : Kept ({ s with timers := timers } : ThreadTimers T) := by
  have active := active_congr (s := s) time
  have key : ({ s with timers := timers } : ThreadTimers T).key = s.key := by
    funext a
    simp only [ThreadTimers.key, time, scheduling]
  have earliest : ∀ shared, Earliest ({ s with timers := timers } : ThreadTimers T) shared ↔
      Earliest s shared := by
    intro shared
    cases shared <;> simp only [Earliest, active, time]
  refine ⟨⟨⟨?_, ?_, ?_, ?_, kept.counter⟩, ?_, ?_, ?_⟩, ?_⟩
  · simpa only [time] using kept.finite
  · simpa only [active, order, scheduling] using kept.order
  · simpa only [active, scheduling] using kept.distinct
  · simpa only [active, scheduling] using kept.earlier
  · simpa only [active] using kept.holds
  · simpa only [active] using kept.idle
  · simpa only [key] using kept.ordered
  · simpa only [Armed, earliest] using kept.armed

end

omit [LinearOrder T] in
theorem setInterval_alike (interval : T) (a : Nat) :
    let timers := (s.setTimer t { s.timers t with repeatInterval := interval }).timers
    (timers a).nextFireTime = (s.timers a).nextFireTime ∧
      (timers a).heapInsertionOrder = (s.timers a).heapInsertionOrder ∧
      (timers a).scheduling = (s.timers a).scheduling := by
  by_cases same : a = t
  · simp only [same, setTimer_timers_self, and_self]
  · simp only [setTimer_timers_of_ne same, and_self]

theorem Kept.setInterval (kept : Kept s) (interval : T) :
    Kept (s.setTimer t { s.timers t with repeatInterval := interval }) :=
  kept.congr (fun a => (setInterval_alike interval a).1)
    (fun a => (setInterval_alike interval a).2.1) fun a => (setInterval_alike interval a).2.2

omit [LinearOrder T] in
theorem spread_setInterval (interval : T) :
    Spread (s.setTimer t { s.timers t with repeatInterval := interval }) ↔ Spread s :=
  spread_congr (fun a => (setInterval_alike interval a).1)
    fun a => (setInterval_alike interval a).2.2

theorem Kept.start {interval : T} (kept : Kept s) (spread : Spread (s.start t newTime interval)) :
    Kept (s.start t newTime interval) ∧
      (s.start t newTime interval).firingTimers = s.firingTimers :=
  (kept.setInterval interval).setNextFireTime spread

theorem Kept.allowTimers (kept : Kept s) : Kept s.allowTimers :=
  have sorted : Sorted { s with firingTimers := false } := { kept.toSorted with }
  ⟨sorted.updateSharedTimer, sorted.armed_updateSharedTimer⟩

variable [Add T]

theorem Kept.augmentRepeatInterval {delta : T} (kept : Kept s)
    (spread : Spread (s.augmentRepeatInterval t delta)) :
    Kept (s.augmentRepeatInterval t delta) ∧
      (s.augmentRepeatInterval t delta).firingTimers = s.firingTimers := by
  obtain ⟨moved, firing⟩ := kept.setNextFireTime ((spread_setInterval _).mp spread)
  exact ⟨moved.setInterval _, firing⟩

/-- Firing a timer keeps the heap in order. -/
theorem Kept.fire {fireTime : T} (kept : Kept s) (due : s.Due fireTime)
    (firing : s.firingTimers = true) (spread : Spread s) (spread' : Spread (s.fire fireTime)) :
    Kept (s.fire fireTime) ∧ (s.fire fireTime).firingTimers = s.firingTimers := by
  have moved := moved_heapDeleteMin kept.toSorted due.1 spread
  have armed := kept.armed
  rw [Armed, if_pos firing] at armed
  have taken : Kept ((s.cleared (s.timerHeap.entries 0)).heapDeleteMin (s.timerHeap.entries 0)) := by
    refine ⟨moved.sorted kept.cleared, ?_⟩
    rw [Armed, moved.firingTimers, moved.sharedTimer]
    exact (if_pos firing).mpr armed
  obtain ⟨fired, same⟩ := taken.setNextFireTime spread'
  exact ⟨fired, same.trans moved.firingTimers⟩

/-- What is to hold in every state of a run: passes wait for the timers they fire, and timers are fired
in passes only. -/
structure Running (s : ThreadTimers T) (items : List (Item T)) : Prop extends Kept s where
  spread : Spread s
  below : ∀ item ∈ items.tail, waits item = true
  on : ∀ fireTime, .fireTimers fireTime ∈ items → s.firingTimers = true
  off : items = [] → s.firingTimers = false

section
variable {items rest : List (Item T)} {item : Item T} {event : Event T}
  {next : ThreadTimers T × List (Item T)}

omit [LinearOrder T] [Zero T] [Add T] in
/-- A pass that fires no timer right now is not among the items that wait. -/
theorem no_fireTimers (waiting : ∀ item ∈ items, waits item = true) (fireTime : T) :
    .fireTimers fireTime ∉ items := fun member => absurd (waiting _ member) Bool.false_ne_true

omit [LinearOrder T] [Add T] in
theorem allowTimers_firing : s.allowTimers.firingTimers = false := updateSharedTimer_firing

omit [Add T] in
theorem Kept.running_allowTimers (kept : Kept s) (waiting : ∀ item ∈ items, waits item = true)
    (spread : Spread s.allowTimers) : Running s.allowTimers items where
  toKept := kept.allowTimers
  spread := spread
  below item member := waiting item (List.mem_of_mem_tail member)
  on fireTime member := absurd member (no_fireTimers waiting fireTime)
  off _ := allowTimers_firing

theorem Running.turn (running : Running s (item :: rest))
    (turned : s.turn item event = some next) (spread : Spread next.1) :
    Running next.1 (next.2 ++ rest) := by
  have waiting : ∀ item ∈ rest, waits item = true := running.below
  unfold ThreadTimers.turn at turned
  split at turned
  · rename_i fireTime
    have firing := running.on fireTime List.mem_cons_self
    split at turned
    · rename_i due
      cases turned
      obtain ⟨kept, same⟩ := running.toKept.fire due firing running.spread spread
      refine ⟨kept, spread, waiting, fun other member => same.trans firing, nofun⟩
    · cases turned
      exact running.toKept.running_allowTimers waiting spread
  · split at turned
    · cases turned
      exact running.toKept.running_allowTimers waiting spread
    · rename_i goes_on
      cases turned
      have firing : s.firingTimers = true := by
        cases firing : s.firingTimers with
        | true => rfl
        | false =>
          rw [firing] at goes_on
          exact absurd rfl goes_on
      exact ⟨running.toKept, spread, waiting, fun _ _ => firing, nofun⟩
  · cases turned

omit [Add T] in
theorem Running.same (running : Running s items) (kept : Kept s') (spread : Spread s')
    (firing : s'.firingTimers = s.firingTimers) : Running s' items :=
  ⟨kept, spread, running.below, fun fireTime member => firing.trans (running.on fireTime member),
    fun idle => firing.trans (running.off idle)⟩

theorem Running.call (running : Running s items)
    (ready : ∀ item ∈ items.head?, waits item = true) (called : s.call event = some next)
    (spread : Spread next.1) : Running next.1 (next.2 ++ items) := by
  have waiting : ∀ item ∈ items, waits item = true := by
    cases items with
    | nil => nofun
    | cons first rest =>
      intro item member
      obtain rfl | later := List.mem_cons.mp member
      · exact ready item rfl
      · exact running.below item later
  unfold ThreadTimers.call at called
  split at called
  · cases called
    obtain ⟨kept, firing⟩ := running.toKept.start spread
    exact running.same kept spread firing
  · cases called
    obtain ⟨kept, firing⟩ := running.toKept.start spread
    exact running.same kept spread firing
  · cases called
    obtain ⟨kept, firing⟩ := running.toKept.augmentRepeatInterval spread
    exact running.same kept spread firing
  · have armed := running.armed
    split at called
    · rename_i set
      split at called
      · rename_i firing
        rw [Armed, if_pos firing] at armed
        rw [armed] at set
        cases set
      · cases called
        refine ⟨⟨{ running.toSorted with }, ?_⟩, spread, waiting, fun _ _ => rfl, nofun⟩
        exact (if_pos rfl).mpr rfl
    · cases called
  · cases called
    exact running.toKept.running_allowTimers waiting spread
  · cases called

end

/-- Before the first call. -/
def idle : Agenda (ThreadTimers T) (Item T) := ⟨{}, []⟩

omit [Add T] in
/-- The first timer of the heap is due when any active timer is. -/
theorem Sorted.due_iff (sorted : Sorted s) (fireTime : T) :
    s.Due fireTime ↔ ∃ a, s.Active a ∧ (s.timers a).nextFireTime ≤ fireTime := by
  constructor
  · rintro ⟨positive, due⟩
    exact ⟨_, (sorted.root positive).1, due⟩
  · rintro ⟨a, active, due⟩
    have positive := sorted.size_pos active
    have first := (sorted.root positive).2.2 a active
    exact ⟨positive, (time_le_of_key_le first).trans due⟩

omit [Add T] in
theorem Sorted.root_lt (sorted : Sorted s) (positive : 0 < s.size) {a : Nat} (active : s.Active a)
    (different : a ≠ s.timerHeap.entries 0) : s.key (s.timerHeap.entries 0) < s.key a := by
  obtain ⟨root_active, -, first⟩ := sorted.root positive
  apply lt_of_le_of_ne (first a active)
  intro same
  have numbers := congrArg (fun pair => (ofLex pair).2) same
  exact different (sorted.distinct a _ active root_active numbers.symm)

/-- The next timer that a pass fires is the first of all active timers, and it is due; a pass ends by
itself when no active timer is due. -/
def FiresFirst (now : Agenda (ThreadTimers T) (Item T)) : Prop :=
  ∀ fireTime rest, now.items = .fireTimers fireTime :: rest →
    ((∃ a, now.state.Active a ∧ (now.state.timers a).nextFireTime ≤ fireTime) →
      ∃ t, (machine.step now .proceed).items = .fired t fireTime :: rest ∧ now.state.Active t ∧
        (now.state.timers t).nextFireTime ≤ fireTime ∧
        ∀ a, now.state.Active a → a ≠ t → now.state.key t < now.state.key a) ∧
    ((¬∃ a, now.state.Active a ∧ (now.state.timers a).nextFireTime ≤ fireTime) →
      (machine.step now .proceed).items = rest)

theorem Sorted.firesFirst {now : Agenda (ThreadTimers T) (Item T)} (sorted : Sorted now.state) :
    FiresFirst now := by
  intro fireTime rest stack
  have step : (machine.step now .proceed).items =
      if now.state.Due fireTime then .fired (now.state.timerHeap.entries 0) fireTime :: rest
      else rest := by
    by_cases due : now.state.Due fireTime
    · simp only [Reentrant.step, stack, machine, turn, if_pos due, List.singleton_append]
    · simp only [Reentrant.step, stack, machine, turn, if_neg due, List.nil_append]
  rw [step, ← sorted.due_iff]
  constructor
  · intro due
    rw [if_pos due]
    exact ⟨_, rfl, (sorted.root due.1).1, due.2, fun a active different =>
      sorted.root_lt due.1 active different⟩
  · intro beyond
    rw [if_neg beyond]

/-- What is promised of the timers in every state. -/
structure Orderly (now : Agenda (ThreadTimers T) (Item T)) : Prop where
  holds : now.state.timerHeap.Holds now.state.size now.state.Active
  idle : ∀ t, ¬now.state.Active t → now.state.timerHeap.index t = none
  fires : FiresFirst now
  armed : now.state.firingTimers = false ∨ now.items = [] →
    Earliest now.state now.state.sharedTimer

theorem Running.orderly {now : Agenda (ThreadTimers T) (Item T)}
    (running : Running now.state now.items) : Orderly now where
  holds := running.holds
  idle := running.idle
  fires := running.toSorted.firesFirst
  armed := by
    intro beyond
    have off : now.state.firingTimers = false := beyond.elim id running.off
    have armed := running.armed
    rwa [Armed, off, if_neg Bool.false_ne_true] at armed

/-- No timer has the number of a scheduling to come. -/
def Counted (s : ThreadTimers T) (bound : Nat) : Prop :=
  s.schedulings ≤ bound ∧ ∀ t, (s.timers t).scheduling ≤ bound

omit [LinearOrder T] [Add T] in
theorem Counted.spread {bound : Nat} (counted : Counted s bound) (few : bound < 2147483647) :
    Spread s := by
  intro a b _ _
  have := counted.2 a
  omega

omit [LinearOrder T] [Add T] in
theorem Counted.same {bound : Nat} (counted : Counted s bound)
    (schedulings : s'.schedulings = s.schedulings)
    (scheduling : ∀ a, (s'.timers a).scheduling = (s.timers a).scheduling) :
    Counted s' (bound + 1) := by
  refine ⟨?_, fun a => ?_⟩
  · rw [schedulings]
    exact Nat.le_succ_of_le counted.1
  · rw [scheduling]
    exact Nat.le_succ_of_le (counted.2 a)

omit [Add T] in
theorem setNextFireTime_schedulings (different : (s.timers t).nextFireTime ≠ newTime) :
    (s.setNextFireTime t newTime).schedulings = s.schedulings + 1 := by
  have decreased : ∀ s : ThreadTimers T, (s.heapDecreaseKey t).schedulings = s.schedulings := by
    intro s
    unfold heapDecreaseKey
    split <;> rfl
  have shared : ∀ s : ThreadTimers T, s.updateSharedTimer.schedulings = s.schedulings := by
    intro s
    unfold updateSharedTimer
    split <;> rfl
  rw [setNextFireTime, if_neg different]
  dsimp only
  split_ifs <;>
    simp only [shared, heapInsert, heapDelete, heapIncreaseKey, heapPop, heapPopMin, removeLast,
      setTimer, decreased] <;>
    rfl

omit [Add T] in
/-- A next fire time takes one number at most. -/
theorem Counted.setNextFireTime {bound : Nat} (counted : Counted s bound) :
    Counted (s.setNextFireTime t newTime) (bound + 1) := by
  by_cases same : (s.timers t).nextFireTime = newTime
  · rw [ThreadTimers.setNextFireTime, if_pos same]
    exact counted.same rfl fun _ => rfl
  · refine ⟨?_, fun a => ?_⟩
    · rw [setNextFireTime_schedulings same]
      exact Nat.succ_le_succ counted.1
    · rw [setNextFireTime_timers same]
      by_cases equal : a = t
      · rw [equal, schedule_timers_self]
        exact Nat.le_succ_of_le counted.1
      · rw [schedule_timers_of_ne equal]
        exact Nat.le_succ_of_le (counted.2 a)

omit [LinearOrder T] [Add T] in
theorem Counted.setTimer {bound : Nat} {timer : TimerBase T} (counted : Counted s bound)
    (number : timer.scheduling = (s.timers t).scheduling) : Counted (s.setTimer t timer) bound := by
  refine ⟨counted.1, fun a => ?_⟩
  by_cases same : a = t
  · rw [same, setTimer_timers_self, number]
    exact counted.2 t
  · rw [setTimer_timers_of_ne same]
    exact counted.2 a

omit [LinearOrder T] [Add T] in
theorem Counted.allowTimers {bound : Nat} (counted : Counted s bound) :
    Counted s.allowTimers (bound + 1) := by
  unfold ThreadTimers.allowTimers updateSharedTimer
  split
  · exact counted.same rfl fun _ => rfl
  · exact counted.same rfl fun _ => rfl

end ThreadTimers

end WkcBrowser.Platform
