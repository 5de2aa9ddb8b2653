import Mathlib.Algebra.Group.Nat.Defs
import Mathlib.Data.List.AList
import WkcBrowser.Lib.Agenda

/-! `EventTarget`: the listeners of one target and the dispatches that are in progress on it. A listener
vector has an address, so that a vector that is deleted and one that is made anew for the same type
differ. -/

namespace WkcBrowser.Dom

open Lib

structure RegisteredEventListener (L : Type) where
  listener : L
  useCapture : Bool
deriving DecidableEq

instance lawfulBEqListener {L : Type} [DecidableEq L] : LawfulBEq (RegisteredEventListener L) :=
  inferInstance

inductive EventPhase where
  | none
  | capturing
  | atTarget
  | bubbling
deriving DecidableEq

/-- What `fireEventListeners` asks of a listener in a phase. -/
def EventPhase.admits {L : Type} (phase : EventPhase) (registered : RegisteredEventListener L) : Bool :=
  !(phase = .capturing && !registered.useCapture) && !(phase = .bubbling && registered.useCapture)

/-- The most registered listeners that a vector can hold; it crashes before it holds more. -/
def vectorLimit : Nat := (2 ^ 32 - 1) / 8

/-- `size_t` wraps around. -/
def increment (i : Nat) : Nat := (i + 1) % 2 ^ 32

def decrement (i : Nat) : Nat := (i + (2 ^ 32 - 1)) % 2 ^ 32

/-- A dispatch in progress: its `FiringEventIterator` and its listener vector. The fields from `phase` on
only record: the phase and the listeners at the start, the listeners whose turn is still to come, those
removed before their turn, and those invoked. -/
structure Firing (V E L : Type) where
  event : V
  eventType : E
  entry : Nat
  iterator : Nat
  end_ : Nat
  phase : EventPhase
  registered : List (RegisteredEventListener L)
  waiting : List (RegisteredEventListener L)
  removed : List (RegisteredEventListener L) := []
  invoked : List (RegisteredEventListener L) := []

/-- The dispatches in progress are listed from the innermost one, those that are over from the last one.
`overrun` records an index beyond a vector. -/
structure EventTarget (V E L : Type) where
  eventListenerMap : AList (fun _ : E => Nat) := ∅
  vectors : Nat → Option (List (RegisteredEventListener L)) := fun _ => .none
  created : Nat := 0
  firingEventIterators : List (Firing V E L) := []
  eventPhase : V → EventPhase := fun _ => .none
  finished : List (Firing V E L) := []
  overrun : Bool := false

namespace Firing

variable {V E L : Type} [DecidableEq E] [DecidableEq L]

/-- A removed listener of the type of the dispatch has no turn any more. -/
def forget (f : Firing V E L) (eventType : E) (registered : RegisteredEventListener L) :
    Firing V E L :=
  if eventType = f.eventType ∧ registered ∈ f.waiting then
    { f with waiting := f.waiting.erase registered, removed := registered :: f.removed }
  else f

/-- A dispatch that plans to invoke the listener at an index has one less to invoke. -/
def notify (f : Firing V E L) (eventType : E) (index : Nat) : Firing V E L :=
  if eventType ≠ f.eventType then f
  else if index ≥ f.end_ then f
  else
    { f with
      end_ := f.end_ - 1
      iterator := if index ≤ f.iterator then decrement f.iterator else f.iterator }

def clear (f : Firing V E L) : Firing V E L :=
  { f with iterator := 0, end_ := 0, waiting := [], removed := f.waiting ++ f.removed }

end Firing

inductive ListenerOperation (V E L : Type) where
  | addEventListener (eventType : E) (registered : RegisteredEventListener L)
  | removeEventListener (eventType : E) (registered : RegisteredEventListener L)
  | removeAllEventListeners
  | setEventPhase (event : V) (phase : EventPhase)
  | fireEventListeners (event : V)
deriving DecidableEq

/-- Where a dispatch is. -/
inductive FiringItem where
  | loop
  | handleEvent
deriving DecidableEq

inductive ListenerEvent (V E L : Type) where
  | resume
  | call (operation : ListenerOperation V E L)
deriving DecidableEq

namespace EventTarget

variable {V E L : Type} [DecidableEq V] [DecidableEq E] [DecidableEq L]

section
variable (t : EventTarget V E L)

/-- The vector of a type. -/
def entry (eventType : E) : Option (Nat × List (RegisteredEventListener L)) :=
  match t.eventListenerMap.lookup eventType with
  | some address => (t.vectors address).map (address, ·)
  | none => none

def addEventListener (eventType : E) (registered : RegisteredEventListener L) :
    Option (EventTarget V E L) :=
  match t.entry eventType with
  | none =>
    some { t with
      eventListenerMap := t.eventListenerMap.insert eventType t.created
      vectors := Function.update t.vectors t.created (some [registered])
      created := t.created + 1 }
  | some (address, listeners) =>
    if registered ∈ listeners then some t
    else if listeners.length < vectorLimit then
      some { t with vectors := Function.update t.vectors address (some (listeners ++ [registered])) }
    else none

def removeEventListener (eventType : E) (registered : RegisteredEventListener L) :
    EventTarget V E L :=
  match t.entry eventType with
  | none => t
  | some (address, listeners) =>
    if registered ∈ listeners then
      let index := listeners.idxOf registered
      let listeners := listeners.eraseIdx index
      let t : EventTarget V E L :=
        if listeners = [] then
          { t with
            vectors := Function.update t.vectors address none
            eventListenerMap := t.eventListenerMap.erase eventType }
        else { t with vectors := Function.update t.vectors address (some listeners) }
      { t with
        firingEventIterators := t.firingEventIterators.map fun f =>
          (f.forget eventType registered).notify eventType index }
    else t

def removeAllEventListeners : EventTarget V E L :=
  { t with
    vectors := fun address =>
      if ∃ eventType ∈ t.eventListenerMap.keys, t.eventListenerMap.lookup eventType = some address then
        none
      else t.vectors address
    eventListenerMap := ∅
    firingEventIterators := t.firingEventIterators.map Firing.clear }

/-- The start of `fireEventListeners`. -/
def fireEventListeners (typeOf : V → E) (event : V) : EventTarget V E L × List FiringItem :=
  match t.entry (typeOf event) with
  | none => (t, [])
  | some (address, listeners) =>
    ({ t with
      firingEventIterators :=
        { event := event, eventType := typeOf event, entry := address, iterator := 0
          end_ := listeners.length, phase := t.eventPhase event, registered := listeners
          waiting := listeners } :: t.firingEventIterators }, [.loop])

def call (typeOf : V → E) :
    ListenerOperation V E L → Option (EventTarget V E L × List FiringItem)
  | .addEventListener eventType registered =>
    (t.addEventListener eventType registered).map (·, [])
  | .removeEventListener eventType registered => some (t.removeEventListener eventType registered, [])
  | .removeAllEventListeners => some (t.removeAllEventListeners, [])
  | .setEventPhase event phase =>
    some ({ t with eventPhase := Function.update t.eventPhase event phase }, [])
  | .fireEventListeners event => some (t.fireEventListeners typeOf event)

/-- The end of the innermost dispatch. -/
def finish (f : Firing V E L) (outer : List (Firing V E L)) : EventTarget V E L :=
  { t with firingEventIterators := outer, finished := f :: t.finished }

/-- The loop looks at the next listener, or ends. -/
def loop (f : Firing V E L) (outer : List (Firing V E L)) : EventTarget V E L × List FiringItem :=
  if f.iterator < f.end_ then
    match (t.vectors f.entry).bind (·[f.iterator]?) with
    | none => ({ t with overrun := true }, [])
    | some registered =>
      let f := { f with waiting := f.waiting.erase registered }
      if (t.eventPhase f.event).admits registered then
        ({ t with firingEventIterators := { f with invoked := f.invoked ++ [registered] } :: outer },
          [.handleEvent])
      else
        ({ t with firingEventIterators := { f with iterator := increment f.iterator } :: outer },
          [.loop])
  else (t.finish f outer, [])

/-- A listener has handled the event. -/
def handled (f : Firing V E L) (outer : List (Firing V E L)) : EventTarget V E L × List FiringItem :=
  if t.eventListenerMap.keys = [] then (t.finish f outer, [])
  else
    ({ t with firingEventIterators := { f with iterator := increment f.iterator } :: outer }, [.loop])

def resume (item : FiringItem) : EventTarget V E L × List FiringItem :=
  match t.firingEventIterators with
  | [] => (t, [])
  | f :: outer =>
    match item with
    | .loop => t.loop f outer
    | .handleEvent => t.handled f outer

end

def machine (typeOf : V → E) :
    Reentrant (EventTarget V E L) FiringItem (ListenerEvent V E L) where
  turn t item
    | .resume => some (t.resume item)
    | .call _ => none
  call t
    | .resume => none
    | .call operation => t.call typeOf operation
  waits item := item = .handleEvent

def step (typeOf : V → E) : Agenda (EventTarget V E L) FiringItem → ListenerEvent V E L →
    Agenda (EventTarget V E L) FiringItem :=
  (machine typeOf).step

end EventTarget

end WkcBrowser.Dom
