import Mathlib.Logic.Function.Basic
import WkcBrowser.Lib.Agenda

/-! Asynchronous requests of `XMLHttpRequest`. Scripts run wherever an event is dispatched and may call
the object again, so that what its functions still have to do is a stack of items. Every send that
started a loader is followed to what ends it. -/

namespace WkcBrowser.Xml

open Lib

/-- `XMLHttpRequest::State` -/
inductive ReadyState where
  | unsent
  | opened
  | headersReceived
  | loading
  | done
deriving DecidableEq

def ReadyState.rank : ReadyState → Nat
  | unsent => 0
  | opened => 1
  | headersReceived => 2
  | loading => 3
  | done => 4

inductive EventType where
  | readystatechange
  | loadstart
  | progress
  | load
  | error
  | abort
deriving DecidableEq

/-- What ends a send. -/
inductive Ending where
  | load
  | error
  | abort
  | openCall
  | abortCall
  /-- Its loader was cancelled or dropped without any of these. -/
  | lost
deriving DecidableEq

structure XMLHttpRequest where
  readyState : ReadyState := .unsent
  error : Bool := false
  /-- The loader of a send. -/
  loader : Option Nat := none
  /-- The load of the loader is under way. -/
  loading : Bool := false
  upload : Bool := false
  uploadEventsAllowed : Bool := true
  uploadComplete : Bool := false
  requestEntityBody : Bool := false
  didTellLoaderAboutRequest : Bool := false
  /-- The sends that started a loader, and what ended each. -/
  sends : Nat := 0
  endings : Nat → List Ending := fun _ => []

inductive Item where
  | dispatchEvent (type : EventType) (toUpload : Bool)
  /-- `callReadyStateChangeListener` once scripts know. -/
  | readyStateChanged
  /-- `createRequest` once scripts know. -/
  | uploadLoadStart
  | createRequest
  /-- `ThreadableLoader::create` -/
  | create
  /-- `abort` once scripts know that it is done. -/
  | abortDone
  /-- `networkError` and `abortError` for a send, or for a request that never became one. -/
  | errorEvent (send : Option Nat)
  | abortEvent (send : Option Nat)
  | uploadEvent (type : EventType)
  | networkErrorDone
  /-- `didFinishLoading` once there are headers. -/
  | finish
  /-- `didReceiveData` once there are headers. -/
  | receiveData (nonempty : Bool)
  | received
  | sentData (all : Bool)
deriving DecidableEq

inductive Event where
  /-- With a method that `open` takes. -/
  | openCall (allowed : Bool)
  | upload
  | send (entityBody : Bool)
  | abort
  | didSendData (all : Bool)
  | didReceiveData (nonempty : Bool)
  | didFinishLoading
  /-- `over` when the load itself has ended. -/
  | didFail (cancellation beyond : Bool)
  | didFailRedirectCheck
  /-- An event handler returns. -/
  | returned
  | proceed
  /-- What `isSimpleCrossOriginAccessRequest` says of the request. -/
  | requested (simple : Bool)
  | created (loader : Bool)

namespace XMLHttpRequest

variable (s : XMLHttpRequest)

def active : Bool := s.loader.isSome && s.loading

def callReadyStateChangeListener : List Item :=
  [.dispatchEvent .readystatechange false, .readyStateChanged]

def changeState (newState : ReadyState) : XMLHttpRequest × List Item :=
  if s.readyState ≠ newState then
    ({ s with readyState := newState }, callReadyStateChangeListener)
  else
    (s, [])

/-- The send is ended, if there is one. -/
def ended (send : Option Nat) (how : Ending) : XMLHttpRequest :=
  match send with
  | some id => { s with endings := Function.update s.endings id (s.endings id ++ [how]) }
  | none => s

/-- A call of the script ends whatever has not ended. -/
def endAll (how : Ending) : XMLHttpRequest :=
  { s with
    endings := fun id => if id < s.sends ∧ s.endings id = [] then [how] else s.endings id }

/-- An active loader is cancelled or dropped. -/
def lose : XMLHttpRequest := if s.active then s.ended s.loader .lost else s

def latest : Option Nat := if s.sends = 0 then none else some (s.sends - 1)

/-- A cancelled load fails at once, in the error state, and tells the cache's loader. -/
def internalAbort : XMLHttpRequest :=
  { s with
    error := true
    didTellLoaderAboutRequest := !s.active && s.didTellLoaderAboutRequest
    loader := none
    loading := false }

def openCall (allowed : Bool) : XMLHttpRequest × List Item :=
  let previousState := s.readyState
  let s := { (s.endAll .openCall).internalAbort with
    readyState := .unsent
    error := false
    uploadComplete := false
    requestEntityBody := false }
  if allowed then
    if previousState ≠ .opened then s.changeState .opened
    else ({ s with readyState := .opened }, [])
  else
    (s, [])

/-- `initSend` and `createRequest` up to the first event. -/
def send (entityBody : Bool) : XMLHttpRequest × List Item :=
  if s.readyState ≠ .opened ∨ s.loader.isSome then
    (s, [])
  else
    ({ s with error := false, requestEntityBody := entityBody || s.requestEntityBody },
      [.dispatchEvent .loadstart false, .uploadLoadStart, .createRequest])

def uploadLoadStart : List Item :=
  if s.requestEntityBody && s.upload then [.dispatchEvent .loadstart true] else []

def createRequest (simple : Bool) : XMLHttpRequest × List Item :=
  ({ s with uploadEventsAllowed := !simple, requestEntityBody := false, error := false }, [.create])

def created : Bool → XMLHttpRequest
  | true => { s.lose with
      loader := some s.sends
      loading := true
      didTellLoaderAboutRequest := true
      sends := s.sends + 1 }
  | false => { s.lose with loader := none, loading := false }

def abort : XMLHttpRequest × List Item :=
  let sendFlag := s.loader.isSome
  let s := (s.endAll .abortCall).internalAbort
  let events := [Item.dispatchEvent .abort false, .uploadEvent .abort]
  if s.readyState.rank ≤ ReadyState.opened.rank ∧ !sendFlag ∨ s.readyState = .done then
    ({ s with readyState := .unsent }, events)
  else
    let (s, items) := s.changeState .done
    (s, items ++ .abortDone :: events)

def genericError : XMLHttpRequest × List Item :=
  { s with requestEntityBody := false, error := true }.changeState .done

def networkError (send : Option Nat) : XMLHttpRequest × List Item :=
  let (s, items) := s.genericError
  (s, items ++ [.errorEvent send, .uploadEvent .error, .networkErrorDone])

def abortError (send : Option Nat) : XMLHttpRequest × List Item :=
  let (s, items) := s.genericError
  (s, items ++ [.abortEvent send, .uploadEvent .abort])

def uploadEvent (type : EventType) : XMLHttpRequest × List Item :=
  if s.uploadComplete then
    (s, [])
  else
    ({ s with uploadComplete := true },
      if s.upload && s.uploadEventsAllowed then [.dispatchEvent type true] else [])

def didFail (send : Option Nat) (cancellation beyond : Bool) : XMLHttpRequest × List Item :=
  let s := { s with didTellLoaderAboutRequest := false, loading := s.loading && !beyond }
  if s.error then (s, [])
  else if cancellation then s.abortError send
  else s.networkError send

def didFinishLoading : XMLHttpRequest × List Item :=
  let s := { s with didTellLoaderAboutRequest := false, loading := false }
  if s.error then
    (s, [])
  else if s.readyState.rank < ReadyState.headersReceived.rank then
    let (s, items) := s.changeState .headersReceived
    (s, items ++ [.finish])
  else
    (s, [.finish])

def finish : XMLHttpRequest × List Item :=
  { s.lose with loader := none, loading := false }.changeState .done

def readyStateChanged : XMLHttpRequest × List Item :=
  if s.readyState = .done ∧ !s.error then
    (s.ended s.latest .load, [.dispatchEvent .load false])
  else
    (s, [])

def didReceiveData (nonempty : Bool) : XMLHttpRequest × List Item :=
  if s.error then
    (s, [])
  else if s.readyState.rank < ReadyState.headersReceived.rank then
    let (s, items) := s.changeState .headersReceived
    (s, items ++ [.receiveData nonempty])
  else
    (s, [.receiveData nonempty])

def receiveData (nonempty : Bool) : List Item :=
  if nonempty && !s.error then [.dispatchEvent .progress false, .received] else []

def received : XMLHttpRequest × List Item :=
  if s.readyState ≠ .loading then s.changeState .loading else (s, callReadyStateChangeListener)

def didSendData (all : Bool) : List Item :=
  if s.upload then
    (if s.uploadEventsAllowed then [.dispatchEvent .progress true] else []) ++ [.sentData all]
  else
    []

def sentData (all : Bool) : XMLHttpRequest × List Item :=
  if all && !s.uploadComplete then
    ({ s with uploadComplete := true },
      if s.uploadEventsAllowed then [.dispatchEvent .load true] else [])
  else
    (s, [])

def turn : Item → Event → Option (XMLHttpRequest × List Item)
  | .dispatchEvent .., .returned => some (s, [])
  | .readyStateChanged, .proceed => some s.readyStateChanged
  | .uploadLoadStart, .proceed => some (s, s.uploadLoadStart)
  | .createRequest, .requested simple => some (s.createRequest simple)
  | .create, .created loader => some (s.created loader, [])
  | .create, .didFail cancellation _ =>
    let (s, items) := s.didFail none cancellation false
    some (s, items ++ [.create])
  | .abortDone, .proceed => some ({ s with readyState := .unsent }, [])
  | .errorEvent send, .proceed => some (s.ended send .error, [.dispatchEvent .error false])
  | .abortEvent send, .proceed => some (s.ended send .abort, [.dispatchEvent .abort false])
  | .uploadEvent type, .proceed => some (s.uploadEvent type)
  | .networkErrorDone, .proceed => some (s.lose.internalAbort, [])
  | .finish, .proceed => some s.finish
  | .receiveData nonempty, .proceed => some (s, s.receiveData nonempty)
  | .received, .proceed => some s.received
  | .sentData all, .proceed => some (s.sentData all)
  | _, _ => none

/-- Calls of scripts, and callbacks of a loader whose load is under way. -/
def call : Event → Option (XMLHttpRequest × List Item)
  | .openCall allowed => some (s.openCall allowed)
  | .upload => some ({ s with upload := true }, [])
  | .send entityBody => some (s.send entityBody)
  | .abort => some s.abort
  | .didSendData all => if s.active then some (s, s.didSendData all) else none
  | .didReceiveData nonempty => if s.active then some (s.didReceiveData nonempty) else none
  | .didFinishLoading => if s.active then some s.didFinishLoading else none
  | .didFail cancellation beyond =>
    if s.active then some (s.didFail s.loader cancellation beyond) else none
  | .didFailRedirectCheck => if s.active then some (s.networkError s.loader) else none
  | _ => none

/-- Event handlers are scripts and may do anything. -/
def waits : Item → Bool
  | .dispatchEvent .. => true
  | _ => false

def machine : Reentrant XMLHttpRequest Item Event where
  turn := turn
  call := call
  waits := waits

end XMLHttpRequest

end WkcBrowser.Xml
