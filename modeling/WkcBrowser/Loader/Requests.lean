import Mathlib.Logic.Function.Basic
import WkcBrowser.Lib.Agenda
import WkcBrowser.Wtf.StringImpl

/-! `Loader` of WebCore's `loader` directory: the queues of subresource requests of each host and when
they are served. Serving a request calls out to the frame and its documents, which may call the loader
again, so that what the loader still has to do is a stack of items. -/

namespace WkcBrowser.Requests

open Wtf Lib

/-- `Loader::Priority` -/
inductive Priority where
  | low
  | medium
  | high
deriving DecidableEq

def Priority.rank : Priority → Nat
  | low => 0
  | medium => 1
  | high => 2

/-- The priorities from `High` down to the given one. -/
def Priority.downTo : Priority → List Priority
  | low => [high, medium, low]
  | medium => [high, medium]
  | high => [high]

/-- `CachedResource::Type` -/
inductive CachedResourceType where
  | imageResource
  | cssStyleSheet
  | script
  | fontResource
  | xslStyleSheet
deriving DecidableEq

def determinePriority : CachedResourceType → Priority
  | .cssStyleSheet | .xslStyleSheet => .high
  | .script | .fontResource => .medium
  | .imageResource => .low

structure Request where
  docLoader : Nat
  /-- The resource is a validator of a cached one. -/
  isCacheValidator : Bool := false
deriving DecidableEq

/-- `Loader::Host`. Only hosts of the HTTP family have a name. -/
structure Host where
  name : Option Text
  maxRequestsInFlight : Int
  requestsPending : Priority → List Request := fun _ => []
  /-- Each request with its loader. -/
  requestsLoading : List (Nat × Request) := []
  nonCachedRequestsInFlight : Int := 0

namespace Host

def addRequest (host : Host) (request : Request) (priority : Priority) : Host :=
  { host with
    requestsPending := Function.update host.requestsPending priority
      (host.requestsPending priority ++ [request]) }

def hasRequests (host : Host) : Bool :=
  !host.requestsLoading.isEmpty ||
    [Priority.low, .medium, .high].any fun priority => !(host.requestsPending priority).isEmpty

/-- `m_numResourcesProcessing`, which `processingResource` also reads, is never changed. -/
def processingResource (host : Host) : Bool := host.nonCachedRequestsInFlight != 0

def requestsInFlight (host : Host) : Int :=
  host.requestsLoading.length + host.nonCachedRequestsInFlight

def removeFirst (host : Host) (priority : Priority) : Host :=
  { host with
    requestsPending := Function.update host.requestsPending priority
      (host.requestsPending priority).tail }

/-- `m_requestsLoading.remove` -/
def remove (host : Host) (loader : Nat) : Host :=
  { host with requestsLoading := host.requestsLoading.filter (·.1 ≠ loader) }

def cancelPendingRequests (host : Host) (docLoader : Nat) : Host :=
  { host with
    requestsPending := fun priority =>
      (host.requestsPending priority).filter (·.docLoader ≠ docLoader) }

def loadersToCancel (host : Host) (docLoader : Nat) : List Nat :=
  (host.requestsLoading.filter (·.2.docLoader = docLoader)).map (·.1)

/-- `revalidationFailed`: the resource is no validator any more. -/
def revalidationFailed (host : Host) (loader : Nat) : Host :=
  { host with
    requestsLoading := host.requestsLoading.map fun entry =>
      if entry.1 = loader then (entry.1, { entry.2 with isCacheValidator := false }) else entry }

end Host

/-- Hosts have numbers, and 0 is `m_nonHTTPProtocolHost`. -/
structure Loader where
  hosts : Nat → Host
  hostCount : Nat := 1
  /-- `m_hosts` -/
  mapped : List Nat := []
  requestTimer : Bool := false
  suspendingPendingRequests : Bool := false
  /-- A timer fires, and no other can: `m_firingTimers`. -/
  firingTimers : Bool := false
  subresourceLoaders : Nat := 0
  /-- Of each document. -/
  parsing : Nat → Bool
  haveStylesheetsLoaded : Nat → Bool

inductive Item where
  /-- `Host::servePendingRequests` with a minimum priority -/
  | servePendingRequests (host : Nat) (minimumPriority : Priority)
  /-- Its loop over the queues, from the first of the given ones on. -/
  | serveQueues (host : Nat) (priorities : List Priority)
  /-- `SubresourceLoader::create` for a request of the first of the queues. -/
  | create (host : Nat) (request : Request) (priorities : List Priority)
  /-- `Loader::servePendingRequests` copies `m_hosts`. -/
  | hostsToServe
  | serveHosts (hosts : List Nat)
  /-- `Loader::cancelRequests`, before or after it has copied `m_hosts`. -/
  | cancelHosts (docLoader : Nat) (copied : Bool) (hosts : List Nat)
  | cancelLoaders (host : Nat) (loaders : List Nat)
  /-- Clients, documents and frames are told. -/
  | callOut
deriving DecidableEq

inductive Event where
  | load (docLoader : Nat) (type : CachedResourceType) (isCacheValidator : Bool)
      (httpHost : Option Text)
  | suspendPendingRequests
  | resumePendingRequests
  | requestTimerFired
  | cancelRequests (docLoader : Nat)
  | didFinishLoading (host loader : Nat)
  | didFail (host loader : Nat)
  | didReceiveResponse (host loader : Nat) (httpStatusCode : Nat)
  | nonCacheRequestInFlight (httpHost : Option Text)
  | nonCacheRequestComplete (httpHost : Option Text)
  /-- A document goes on parsing or loading stylesheets, or ends. -/
  | documentChanged (docLoader : Nat) (parsing haveStylesheetsLoaded : Bool)
  /-- The loader goes on with the item on top. -/
  | proceed
  /-- `SubresourceLoader::create` returns. -/
  | created (loader : Bool)
  /-- A call out returns. -/
  | returned

namespace Loader

variable (s : Loader)

def setHost (h : Nat) (host : Host) : Loader := { s with hosts := Function.update s.hosts h host }

def scheduleServePendingRequests : Loader := { s with requestTimer := true }

/-- `m_hosts.get` -/
def get (name : Text) : Option Nat := s.mapped.find? fun h => (s.hosts h).name = some name

/-- `m_hosts.remove` -/
def remove (name : Option Text) : Loader :=
  { s with mapped := s.mapped.filter fun h => (s.hosts h).name ≠ name }

/-- The host of a name, made and entered when there is none. -/
def hostOf (maxRequestsInFlightPerHost : Int) (name : Text) : Loader × Nat :=
  match s.get name with
  | some h => (s, h)
  | none =>
    ({ s.setHost s.hostCount ⟨some name, maxRequestsInFlightPerHost, fun _ => [], [], 0⟩ with
        hostCount := s.hostCount + 1
        mapped := s.mapped ++ [s.hostCount] }, s.hostCount)

/-- `shouldLimitRequests` -/
def shouldLimitRequests (host : Host) (request : Request) : Bool :=
  host.name.isSome || s.parsing request.docLoader || !s.haveStylesheetsLoaded request.docLoader

/-- The connection limit holds the request back. -/
def limited (host : Host) (request : Request) : Bool :=
  s.shouldLimitRequests host request && host.requestsInFlight ≥ host.maxRequestsInFlight

/-- URLs outside the HTTP family share a host. -/
def hostFor (maxRequestsInFlightPerHost : Int) : Option Text → Loader × Nat
  | some name => s.hostOf maxRequestsInFlightPerHost name
  | none => (s, 0)

def load (maxRequestsInFlightPerHost : Int) (docLoader : Nat) (type : CachedResourceType)
    (isCacheValidator : Bool) (httpHost : Option Text) : Loader × List Item :=
  let (s, h) := s.hostFor maxRequestsInFlightPerHost httpHost
  let hadRequests := (s.hosts h).hasRequests
  let priority := determinePriority type
  let s := s.setHost h ((s.hosts h).addRequest ⟨docLoader, isCacheValidator⟩ priority)
  if priority ≠ .low ∨ httpHost.isNone ∨ !hadRequests then
    (s, [.servePendingRequests h priority])
  else
    (s.scheduleServePendingRequests, [])

def resumePendingRequests : Loader :=
  let s := { s with suspendingPendingRequests := false }
  if s.mapped ≠ [] ∨ (s.hosts 0).hasRequests then s.scheduleServePendingRequests else s

/-- `servePendingRequests` of the loader, once the timer has fired. -/
def requestTimerFired : Loader × List Item :=
  let s := { s with requestTimer := false }
  if s.suspendingPendingRequests then
    (s, [])
  else
    ({ s with firingTimers := true }, [.servePendingRequests 0 .low, .hostsToServe])

/-- A loader of the host is done: its connection is free. -/
def release (h loader : Nat) : Loader × List Item :=
  (s.setHost h ((s.hosts h).remove loader), [.callOut, .servePendingRequests h .low])

def didReceiveResponse (h loader httpStatusCode : Nat) (request : Request) : Loader × List Item :=
  if request.isCacheValidator then
    if httpStatusCode = 304 then
      s.release h loader
    else
      (s.setHost h ((s.hosts h).revalidationFailed loader), [.callOut])
  else
    (s, [.callOut])

def nonCacheRequestInFlight (maxRequestsInFlightPerHost : Int) (name : Text) : Loader :=
  let (s, h) := s.hostOf maxRequestsInFlightPerHost name
  s.setHost h { s.hosts h with
    nonCachedRequestsInFlight := (s.hosts h).nonCachedRequestsInFlight + 1 }

def nonCacheRequestComplete (name : Text) : Loader :=
  match s.get name with
  | some h => s.setHost h { s.hosts h with
      nonCachedRequestsInFlight := (s.hosts h).nonCachedRequestsInFlight - 1 }
  | none => s

def documentChanged (docLoader : Nat) (parsing haveStylesheetsLoaded : Bool) : Loader :=
  { s with
    parsing := Function.update s.parsing docLoader parsing
    haveStylesheetsLoaded := Function.update s.haveStylesheetsLoaded docLoader haveStylesheetsLoaded }

/-- The request that a loader of the host loads. -/
def loadingRequest (h loader : Nat) : Option Request :=
  ((s.hosts h).requestsLoading.find? (·.1 = loader)).map (·.2)

/-- One turn of the loop over the queues. -/
def serveQueue (h : Nat) (priority : Priority) (lower : List Priority) : Loader × List Item :=
  match (s.hosts h).requestsPending priority with
  | [] => (s, [.serveQueues h lower])
  | request :: _ =>
    if s.limited (s.hosts h) request then
      (s, [])
    else
      (s.setHost h ((s.hosts h).removeFirst priority), [.create h request (priority :: lower)])

def created (h : Nat) (request : Request) (priorities : List Priority) : Bool → Loader × List Item
  | true =>
    ({ s.setHost h { s.hosts h with
        requestsLoading := (s.hosts h).requestsLoading ++ [(s.subresourceLoaders, request)] } with
      subresourceLoaders := s.subresourceLoaders + 1 }, [.serveQueues h priorities])
  | false => (s, [.callOut, .serveQueues h priorities])

/-- One turn of the loop over the copied hosts. -/
def serveHost (h : Nat) (rest : List Nat) : Loader × List Item :=
  if (s.hosts h).hasRequests then
    (s, [.servePendingRequests h .low, .serveHosts rest])
  else if (s.hosts h).processingResource then
    (s, [.serveHosts rest])
  else
    (s.remove (s.hosts h).name, [.serveHosts rest])

/-- One turn of the loops over the hosts to cancel. -/
def cancelHost (docLoader : Nat) (copied : Bool) (h : Nat) (rest : List Nat) :
    Loader × List Item :=
  if (s.hosts h).hasRequests then
    (s.setHost h ((s.hosts h).cancelPendingRequests docLoader),
      [.cancelLoaders h ((s.hosts h).loadersToCancel docLoader),
        .cancelHosts docLoader copied rest])
  else
    (s, [.cancelHosts docLoader copied rest])

def cancelLoader (h loader : Nat) (rest : List Nat) : Loader × List Item :=
  match s.loadingRequest h loader with
  | some _ => ((s.release h loader).1, (s.release h loader).2 ++ [.cancelLoaders h rest])
  | none => (s, [.cancelLoaders h rest])

def turn : Item → Event → Option (Loader × List Item)
  | .servePendingRequests h minimumPriority, .proceed =>
    if s.suspendingPendingRequests then some (s, [])
    else some (s, [.serveQueues h minimumPriority.downTo])
  | .serveQueues _ [], .proceed => some (s, [])
  | .serveQueues h (priority :: lower), .proceed => some (s.serveQueue h priority lower)
  | .create h request priorities, .created loader => some (s.created h request priorities loader)
  | .hostsToServe, .proceed => some (s, [.serveHosts s.mapped])
  | .serveHosts [], .proceed => some ({ s with firingTimers := false }, [])
  | .serveHosts (h :: rest), .proceed => some (s.serveHost h rest)
  | .cancelHosts docLoader false [], .proceed => some (s, [.cancelHosts docLoader true s.mapped])
  | .cancelHosts _ true [], .proceed => some (s.scheduleServePendingRequests, [])
  | .cancelHosts docLoader copied (h :: rest), .proceed => some (s.cancelHost docLoader copied h rest)
  | .cancelLoaders _ [], .proceed => some (s, [])
  | .cancelLoaders h (loader :: rest), .proceed => some (s.cancelLoader h loader rest)
  | .callOut, .returned => some (s, [])
  | _, _ => none

def call (maxRequestsInFlightPerHost : Int) : Event → Option (Loader × List Item)
  | .load docLoader type isCacheValidator httpHost =>
    some (s.load maxRequestsInFlightPerHost docLoader type isCacheValidator httpHost)
  | .suspendPendingRequests => some ({ s with suspendingPendingRequests := true }, [])
  | .resumePendingRequests => some (s.resumePendingRequests, [])
  | .requestTimerFired =>
    if s.requestTimer && !s.firingTimers then some s.requestTimerFired else none
  | .cancelRequests docLoader => some (s, [.cancelHosts docLoader false [0]])
  | .didFinishLoading h loader | .didFail h loader =>
    (s.loadingRequest h loader).map fun _ => s.release h loader
  | .didReceiveResponse h loader httpStatusCode =>
    (s.loadingRequest h loader).map (s.didReceiveResponse h loader httpStatusCode)
  | .nonCacheRequestInFlight (some name) =>
    some (s.nonCacheRequestInFlight maxRequestsInFlightPerHost name, [])
  | .nonCacheRequestComplete (some name) => some (s.nonCacheRequestComplete name, [])
  | .documentChanged docLoader parsing haveStylesheetsLoaded =>
    some (s.documentChanged docLoader parsing haveStylesheetsLoaded, [])
  | _ => none

/-- Only what calls out lets the loader be called again. -/
def waits : Item → Bool
  | .create .. | .callOut => true
  | _ => false

def machine (maxRequestsInFlightPerHost : Int) : Reentrant Loader Item Event where
  turn := turn
  call s := s.call maxRequestsInFlightPerHost
  waits := waits

/-- The loader as it is made. -/
def init : Loader where
  hosts _ := { name := none, maxRequestsInFlight := 20 }
  parsing _ := true
  haveStylesheetsLoaded _ := true

end Loader

end WkcBrowser.Requests
