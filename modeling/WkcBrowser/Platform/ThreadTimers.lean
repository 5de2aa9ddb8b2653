import Mathlib.Order.WithBot
import WkcBrowser.Lib.Agenda
import WkcBrowser.Lib.BinaryHeap

/-! `TimerBase` and `ThreadTimers` of WebCore's `platform` directory: the timers of a thread, kept in a
heap, and the passes that fire them. A timer that is fired may do anything to the others, so that what
the passes still have to do is a stack of items. -/

namespace WkcBrowser.Platform

open Lib

/-- Times are any linear order with a zero, which stands for no time; `⊥` is minus infinity. -/
structure TimerBase (T : Type) [Zero T] where
  nextFireTime : WithBot T := (0 : T)
  repeatInterval : T := 0
  heapInsertionOrder : BitVec 32 := 0
  /-- The number of the scheduling that set the next fire time. -/
  scheduling : Nat := 0

/-- Timers have numbers. The index of a timer in the heap is its `m_heapIndex`. -/
structure ThreadTimers (T : Type) [Zero T] where
  timers : Nat → TimerBase T := fun _ => {}
  timerHeap : BinaryHeap Nat := ⟨fun _ => 0, fun _ => none⟩
  size : Nat := 0
  currentHeapInsertionOrder : BitVec 32 := 0
  /-- How often the counter was used. -/
  schedulings : Nat := 0
  firingTimers : Bool := false
  /-- What the shared timer is set to. -/
  sharedTimer : Option (WithBot T) := none

inductive Item (T : Type) where
  /-- The loop of `sharedTimerFiredInternal`. -/
  | fireTimers (fireTime : T)
  /-- `timer->fired()` -/
  | fired (timer : Nat) (fireTime : T)

inductive Event (T : Type) where
  /-- `start` with the sum of the current time and the interval. -/
  | start (timer : Nat) (nextFireTime repeatInterval : T)
  /-- `stop`, also of a timer that is deleted. -/
  | stop (timer : Nat)
  | augmentRepeatInterval (timer : Nat) (delta : T)
  | sharedTimerFired (currentTime : T)
  | fireTimersInNestedEventLoop
  | proceed
  /-- `fired` returns, late when the time for firing timers is over. -/
  | returned (late : Bool)

namespace ThreadTimers

variable {T : Type} [LinearOrder T] [Zero T] (s : ThreadTimers T)

def Active (t : Nat) : Prop := (s.timers t).nextFireTime ≠ (0 : T)

/-- `operator<` of two elements: the second is to come first. -/
def less (a b : Nat) : Bool :=
  let aFireTime := (s.timers a).nextFireTime
  let bFireTime := (s.timers b).nextFireTime
  if bFireTime ≠ aFireTime then
    bFireTime < aFireTime
  else
    ((s.timers a).heapInsertionOrder - (s.timers b).heapInsertionOrder).toNat < 2147483647

def before (a b : Nat) : Bool := s.less b a

def setTimer (t : Nat) (timer : TimerBase T) : ThreadTimers T :=
  { s with timers := Function.update s.timers t timer }

omit [LinearOrder T] in
@[simp] theorem setTimer_timers_self {s : ThreadTimers T} {t : Nat} {timer : TimerBase T} :
    (s.setTimer t timer).timers t = timer := Function.update_self ..

omit [LinearOrder T] in
theorem setTimer_timers_of_ne {s : ThreadTimers T} {t a : Nat} {timer : TimerBase T}
    (different : a ≠ t) : (s.setTimer t timer).timers a = s.timers a :=
  Function.update_of_ne different ..

/-- `push_heap` up to the place of the timer. -/
def heapDecreaseKey (t : Nat) : ThreadTimers T :=
  match s.timerHeap.index t with
  | some i => { s with timerHeap := s.timerHeap.siftUp s.before i (s.timerHeap.entries i) }
  | none => s

variable {s} in
theorem heapDecreaseKey_of_index {t i : Nat} (index : s.timerHeap.index t = some i) :
    s.heapDecreaseKey t =
      { s with timerHeap := s.timerHeap.siftUp s.before i (s.timerHeap.entries i) } := by
  rw [heapDecreaseKey, index]

/-- `pop_heap` -/
def heapPopMin : ThreadTimers T := { s with timerHeap := s.timerHeap.pop s.before s.size }

/-- The timer has the least of all keys while it is popped. -/
def heapPop (t : Nat) : ThreadTimers T :=
  let fireTime := (s.timers t).nextFireTime
  let popped := ((s.setTimer t { s.timers t with nextFireTime := ⊥ }).heapDecreaseKey t).heapPopMin
  popped.setTimer t { popped.timers t with nextFireTime := fireTime }

/-- `removeLast` of the heap, and the index of the timer. -/
def removeLast (t : Nat) : ThreadTimers T :=
  { s with
    timerHeap := { s.timerHeap with index := Function.update s.timerHeap.index t none }
    size := s.size - 1 }

def heapDelete (t : Nat) : ThreadTimers T := (s.heapPop t).removeLast t

def heapDeleteMin (t : Nat) : ThreadTimers T := s.heapPopMin.removeLast t

def heapIncreaseKey (t : Nat) : ThreadTimers T := (s.heapPop t).heapDecreaseKey t

def heapInsert (t : Nat) : ThreadTimers T :=
  { s with timerHeap := s.timerHeap.place s.size t, size := s.size + 1 }.heapDecreaseKey t

def updateSharedTimer : ThreadTimers T :=
  if s.firingTimers ∨ s.size = 0 then { s with sharedTimer := none }
  else { s with sharedTimer := some (s.timers (s.timerHeap.entries 0)).nextFireTime }

/-- The timer with its new time, and the number of its scheduling. -/
def schedule (t : Nat) (newTime : T) : ThreadTimers T :=
  { s.setTimer t { s.timers t with
      nextFireTime := newTime
      heapInsertionOrder := s.currentHeapInsertionOrder
      scheduling := s.schedulings } with
    currentHeapInsertionOrder := s.currentHeapInsertionOrder + 1
    schedulings := s.schedulings + 1 }

def setNextFireTime (t : Nat) (newTime : T) : ThreadTimers T :=
  let oldTime := (s.timers t).nextFireTime
  if oldTime = newTime then
    s
  else
    let wasFirstTimerInHeap := s.timerHeap.index t = some 0
    let scheduled := s.schedule t newTime
    let moved :=
      if oldTime = (0 : T) then scheduled.heapInsert t
      else if newTime = 0 then scheduled.heapDelete t
      else if newTime < oldTime then scheduled.heapDecreaseKey t
      else scheduled.heapIncreaseKey t
    if wasFirstTimerInHeap ∨ moved.timerHeap.index t = some 0 then moved.updateSharedTimer else moved

def start (t : Nat) (nextFireTime repeatInterval : T) : ThreadTimers T :=
  (s.setTimer t { s.timers t with repeatInterval := repeatInterval }).setNextFireTime t nextFireTime

def stop (t : Nat) : ThreadTimers T := s.start t 0 0

def augmentRepeatInterval [Add T] (t : Nat) (delta : T) : ThreadTimers T :=
  let moved := s.setNextFireTime t ((s.timers t).nextFireTime.unbotD 0 + delta)
  moved.setTimer t { moved.timers t with
    repeatInterval := (moved.timers t).repeatInterval + delta }

/-- The end of `sharedTimerFiredInternal`, and `fireTimersInNestedEventLoop`. -/
def allowTimers : ThreadTimers T := { s with firingTimers := false }.updateSharedTimer

/-- The first timer of the heap is due. -/
def Due (fireTime : T) : Prop :=
  0 < s.size ∧ (s.timers (s.timerHeap.entries 0)).nextFireTime ≤ fireTime

instance (fireTime : T) : Decidable (s.Due fireTime) := inferInstanceAs (Decidable (_ ∧ _))

/-- The first timer of the heap is taken out and, when it repeats, set again. -/
def fire [Add T] (fireTime : T) : ThreadTimers T :=
  let timer := s.timerHeap.entries 0
  let taken := (s.setTimer timer { s.timers timer with nextFireTime := (0 : T) }).heapDeleteMin timer
  let interval := (taken.timers timer).repeatInterval
  taken.setNextFireTime timer (if interval ≠ 0 then fireTime + interval else 0)

def turn [Add T] : Item T → Event T → Option (ThreadTimers T × List (Item T))
  | .fireTimers fireTime, .proceed =>
    if s.Due fireTime then some (s.fire fireTime, [.fired (s.timerHeap.entries 0) fireTime])
    else some (s.allowTimers, [])
  | .fired _ fireTime, .returned late =>
    if !s.firingTimers || late then some (s.allowTimers, []) else some (s, [.fireTimers fireTime])
  | _, _ => none

/-- The shared timer fires once it is set, and only then. -/
def call [Add T] : Event T → Option (ThreadTimers T × List (Item T))
  | .start t nextFireTime repeatInterval => some (s.start t nextFireTime repeatInterval, [])
  | .stop t => some (s.stop t, [])
  | .augmentRepeatInterval t delta => some (s.augmentRepeatInterval t delta, [])
  | .sharedTimerFired currentTime =>
    if s.sharedTimer.isSome then
      if s.firingTimers then some ({ s with sharedTimer := none }, [])
      else some ({ s with sharedTimer := none, firingTimers := true }, [.fireTimers currentTime])
    else
      none
  | .fireTimersInNestedEventLoop => some (s.allowTimers, [])
  | _ => none

def waits : Item T → Bool
  | .fireTimers _ => false
  | .fired .. => true

def machine [Add T] : Reentrant (ThreadTimers T) (Item T) (Event T) where
  turn s := s.turn
  call s := s.call
  waits := waits

end ThreadTimers

end WkcBrowser.Platform
