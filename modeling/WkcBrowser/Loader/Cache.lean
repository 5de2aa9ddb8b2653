import Mathlib.Data.BitVec
import WkcBrowser.Lib.Agenda
import WkcBrowser.Lib.LinkedList
import WkcBrowser.Loader.Requests

/-! `Cache` and `CachedResource` of WebCore's `loader` directory: the memory cache, its lists and totals,
and what happens to them when resources are requested, used, revalidated and pruned. Pruning goes on
while images that are deleted let go of others, and clients that are moved may call the cache, so that
what is still to be done is a stack of items. -/

namespace WkcBrowser.MemoryCache

open Lib Requests

/-- What validators of a response say. -/
structure Response where
  cacheControlContainsNoStore : Bool := false
  /-- It has a `last-modified` or an `etag` field. -/
  hasValidator : Bool := false

structure CachedResource (Url : Type) where
  url : Url
  type : CachedResourceType := .imageResource
  response : Response := {}
  encodedSize : BitVec 32 := 0
  decodedSize : BitVec 32 := 0
  accessCount : BitVec 32 := 0
  inLiveDecodedResourcesList : Bool := false
  clients : List Nat := []
  /-- `m_request` is not null. -/
  request : Bool := false
  preloadCount : Nat := 0
  handleCount : Nat := 0
  handlesToRevalidate : Nat := 0
  resourceToRevalidate : Option Nat := none
  proxyResource : Option Nat := none
  /-- The loader waits for the response that tells whether the other resource is still valid. -/
  validating : Bool := false
  loading : Bool := false
  errorOccurred : Bool := false
  inCache : Bool := false
  deleted : Bool := false

namespace CachedResource

variable {Url : Type} (resource : CachedResource Url)

def hasClients : Bool := !resource.clients.isEmpty

def isPreloaded : Bool := resource.preloadCount ≠ 0

def isCacheValidator : Bool := resource.resourceToRevalidate.isSome

def canDelete : Bool :=
  !resource.hasClients && !resource.request && !resource.isPreloaded && resource.handleCount == 0 &&
    !resource.isCacheValidator && resource.proxyResource.isNone

def canUseCacheValidator : Bool :=
  if resource.loading || resource.errorOccurred then false
  else if resource.response.cacheControlContainsNoStore then false
  else resource.response.hasValidator

end CachedResource

/-- Resources have numbers. -/
structure Cache (Url : Type) where
  resources : Nat → CachedResource Url
  created : Nat := 0
  /-- `m_resources` -/
  entries : List (Url × Nat) := []
  allResources : Queues Nat := {}
  liveDecodedResources : LinkedList Nat := {}
  liveSize : BitVec 32 := 0
  deadSize : BitVec 32 := 0
  disabled : Bool := false
  pruneEnabled : Bool := true
  inPruneDeadResources : Bool := false
  capacity : BitVec 32
  minDeadCapacity : BitVec 32 := 0
  maxDeadCapacity : BitVec 32
  /-- The size of a resource without its data, the same for all. -/
  overheadSize : BitVec 32
  /-- The part `cTargetPrunePercentage` of a capacity. -/
  targetPrune : BitVec 32 → BitVec 32

/-- One of the steps of `fastLog2`. -/
def halve (k : Nat) (state : Nat × BitVec 32) : Nat × BitVec 32 :=
  if state.2 >>> k ≠ 0 then (state.1 + k, state.2 >>> k) else state

def fastLog2 (i : BitVec 32) : Nat :=
  (halve 1 (halve 2 (halve 4 (halve 8 (halve 16 (if i &&& (i - 1) ≠ 0 then 1 else 0, i)))))).1

/-- How a load begins that is called for: it may fail at once, and images may be left alone. -/
inductive Load where
  | started
  | failed
  | skipped

inductive Item where
  /-- The clients of a resource that was revalidated are told about the resource they have now. -/
  | switching (revalidating : Nat)
  | allClientsRemoved (resource : Nat)
  /-- The loop of `setDisabled`. -/
  | disabling
  | pruneDead
  /-- The loop over purged resources, at a list and at a resource of it. -/
  | purging (targetSize : BitVec 32) (size list : Nat) (current : Option Nat)
  /-- The loop over the lists, with as many lists still to do. -/
  | lists (targetSize : BitVec 32) (canShrink : Bool) (count : Nat)
  | flushing (targetSize : BitVec 32) (canShrink : Bool) (list : Nat) (current : Option Nat)
  | evicting (targetSize : BitVec 32) (canShrink : Bool) (list : Nat) (current : Option Nat)
  /-- `evict` deletes an image, and the image lets go of its subresources. -/
  | evicted (targetSize : BitVec 32) (canShrink : Bool) (list : Nat) (current : Option Nat)
  | pruneLive
  | pruningLive (targetSize : BitVec 32) (current : Option Nat)

inductive Event (Url : Type) where
  /-- The resource of that URL may have been purged, and access to it may be refused. -/
  | requestResource (type : CachedResourceType) (url : Url) (isPreload purged refused : Bool)
    (load : Load)
  | requestUserCSSStyleSheet (url : Url) (purged : Bool) (load : Load)
  | revalidateResource (resource : Nat) (load : Load)
  | revalidationSucceeded (revalidating : Nat) (response : Response)
  | revalidationFailed (revalidating : Nat)
  | addClient (resource client : Nat)
  | removeClient (resource client : Nat)
  | setDecodedSize (resource : Nat) (size : BitVec 32)
  | setEncodedSize (resource : Nat) (size : BitVec 32)
  | didAccessDecodedData (resource : Nat)
  | setRequest (resource : Nat) (request : Bool)
  | setResponse (resource : Nat) (response : Response)
  | setLoading (resource : Nat) (loading : Bool)
  | error (resource : Nat)
  | increasePreloadCount (resource : Nat)
  | decreasePreloadCount (resource : Nat)
  | registerHandle (resource : Nat)
  | unregisterHandle (resource : Nat)
  | remove (resource : Nat)
  | setCapacities (minDeadBytes maxDeadBytes totalBytes : BitVec 32)
  | setDisabled (disabled : Bool)
  | setPruneEnabled (enabled : Bool)
  | prune
  /-- The loop of `setDisabled` is at the entry of that URL. -/
  | entry (url : Url)
  /-- A loop goes on: whether the resource was purged or is too new, and what size of decoded data is
  left when it is destroyed. -/
  | proceed (purged tooNew : Bool) (kept : BitVec 32)

namespace Cache

variable {Url : Type} (s : Cache Url)

def size (r : Nat) : BitVec 32 :=
  (s.resources r).encodedSize + (s.resources r).decodedSize + s.overheadSize

def modify (r : Nat) (change : CachedResource Url → CachedResource Url) : Cache Url :=
  { s with resources := Function.update s.resources r (change (s.resources r)) }

/-- `delete` -/
def delete (r : Nat) : Cache Url := s.modify r fun resource => { resource with deleted := true }

def deleteIfPossible (r : Nat) : Cache Url :=
  if (s.resources r).canDelete ∧ ¬(s.resources r).inCache then s.delete r else s

/-- The index of the list that `lruListFor` finds. -/
def queueIndex (r : Nat) : Nat :=
  let accessCount := if (s.resources r).accessCount < 1 then 1 else (s.resources r).accessCount
  fastLog2 (s.size r / accessCount)

/-- A resource that was never accessed is brand new and in no list. -/
def removeFromLRUList (r : Nat) : Cache Url :=
  { s with
    allResources :=
      if (s.resources r).accessCount = 0 then s.allResources
      else s.allResources.remove (s.queueIndex r) r }

def insertInLRUList (r : Nat) : Cache Url :=
  { s with allResources := s.allResources.insert (s.queueIndex r) r }

def removeFromLiveDecodedResourcesList (r : Nat) : Cache Url :=
  { s.modify r fun resource => { resource with inLiveDecodedResourcesList := false } with
    liveDecodedResources :=
      if (s.resources r).inLiveDecodedResourcesList then s.liveDecodedResources.remove r
      else s.liveDecodedResources }

def insertInLiveDecodedResourcesList (r : Nat) : Cache Url :=
  { s.modify r fun resource => { resource with inLiveDecodedResourcesList := true } with
    liveDecodedResources := s.liveDecodedResources.insert r }

def addToLiveResourcesSize (r : Nat) : Cache Url :=
  { s with liveSize := s.liveSize + s.size r, deadSize := s.deadSize - s.size r }

def removeFromLiveResourcesSize (r : Nat) : Cache Url :=
  { s with liveSize := s.liveSize - s.size r, deadSize := s.deadSize + s.size r }

def adjustSize (live : Bool) (delta : BitVec 32) : Cache Url :=
  { s with
    liveSize := if live then s.liveSize + delta else s.liveSize
    deadSize := if live then s.deadSize else s.deadSize + delta }

/-- The first access accounts for the size of the resource. -/
def resourceAccessed (r : Nat) : Cache Url :=
  let s := s.removeFromLRUList r
  let s := s.adjustSize (s.resources r).hasClients
    (if (s.resources r).accessCount = 0 then s.size r else 0)
  (s.modify r fun resource => { resource with accessCount := resource.accessCount + 1 }).insertInLRUList
    r

variable [DecidableEq Url]

/-- `m_resources.get` -/
def get (url : Url) : Option Nat := s.entries.lookup url

/-- `m_resources.remove` -/
def removeEntry (url : Url) : Cache Url := { s with entries := s.entries.filter (·.1 ≠ url) }

/-- `m_resources.set` -/
def setEntry (url : Url) (r : Nat) : Cache Url :=
  { s with entries := (url, r) :: s.entries.filter (·.1 ≠ url) }

/-- A resource in the cache leaves it. -/
def leave (r : Nat) : Cache Url :=
  let s := s.removeEntry (s.resources r).url
  let s := s.modify r fun resource => { resource with inCache := false }
  let s := (s.removeFromLRUList r).removeFromLiveDecodedResourcesList r
  s.adjustSize (s.resources r).hasClients (-s.size r)

def evict (r : Nat) : Cache Url :=
  let s := if (s.resources r).inCache then s.leave r else s
  if (s.resources r).canDelete then s.delete r else s

/-- `resourceForURL`; a purged resource is evicted. -/
def resourceForURL (url : Url) (purged : Bool) : Cache Url × Option Nat :=
  match s.get url with
  | some r => if purged then (s.evict r, none) else (s, some r)
  | none => (s, none)

/-- `createResource` -/
def create (type : CachedResourceType) (url : Url) : Cache Url :=
  { s with
    created := s.created + 1
    resources := Function.update s.resources s.created { url := url, type := type } }

/-- `load` -/
def load (r : Nat) : Load → Cache Url
  | .started => s.modify r fun resource => { resource with request := true, loading := true }
  | .failed => s.modify r fun resource => { resource with errorOccurred := true, loading := true }
  | .skipped => s.modify r fun resource => { resource with loading := false }

/-- A resource that does not exist is created and, unless the cache is disabled, put into it. -/
def requestNew (type : CachedResourceType) (url : Url) (load : Load) : Cache Url :=
  let r := s.created
  let s := (s.create type url).modify r fun resource => { resource with inCache := true }
  let s := s.load r load
  if s.disabled then s.modify r fun resource => { resource with inCache := false }
  else (s.setEntry url r).resourceAccessed r

/-- A resource that fails at once while the cache is disabled is deleted. -/
def requestNewOrFail (type : CachedResourceType) (url : Url) (load : Load) : Cache Url :=
  let r := s.created
  let s := s.requestNew type url load
  if s.disabled ∧ (s.resources r).errorOccurred then s.delete r else s

def requestResource (type : CachedResourceType) (url : Url) (isPreload purged refused : Bool)
    (load : Load) : Cache Url :=
  let (s, found) := s.resourceForURL url purged
  match found with
  | some r =>
    if isPreload ∧ ¬(s.resources r).isPreloaded then s
    else if refused then s
    else if (s.resources r).type ≠ type then (s.evict r).requestNewOrFail type url load
    else if s.disabled then s
    else s.resourceAccessed r
  | none => if refused then s else s.requestNewOrFail type url load

def requestUserCSSStyleSheet (url : Url) (purged : Bool) (load : Load) : Cache Url :=
  let (s, found) := s.resourceForURL url purged
  match found with
  | some r =>
    if (s.resources r).type ≠ .cssStyleSheet then s
    else if s.disabled then s
    else s.resourceAccessed r
  | none => s.requestNew .cssStyleSheet url load

def setResourceToRevalidate (n r : Nat) : Cache Url :=
  (s.modify r fun resource => { resource with proxyResource := some n }).modify n fun resource =>
    { resource with resourceToRevalidate := some r, validating := true }

def revalidateResource (r : Nat) (load : Load) : Cache Url :=
  if (s.resources r).isCacheValidator then s
  else if ¬(s.resources r).canUseCacheValidator then s.evict r
  else
    let n := s.created
    let url := (s.resources r).url
    let s := (s.create (s.resources r).type url).setResourceToRevalidate n r
    let s := (s.evict r).setEntry url n
    let s := s.modify n fun resource => { resource with inCache := true }
    (s.resourceAccessed n).load n load

def addClientToSet (r client : Nat) : Cache Url :=
  let s := if ¬(s.resources r).hasClients ∧ (s.resources r).inCache then s.addToLiveResourcesSize r
    else s
  s.modify r fun resource => { resource with clients := client :: resource.clients }

def switchClientsToRevalidatedResource (n r : Nat) : Cache Url :=
  let handles := (s.resources n).handlesToRevalidate
  let clients := (s.resources n).clients
  let s := s.modify r fun resource => { resource with handleCount := resource.handleCount + handles }
  let s := s.modify n fun resource =>
    { resource with
      handleCount := resource.handleCount - handles
      handlesToRevalidate := 0
      clients := [] }
  clients.foldl (fun s client => s.addClientToSet r client) s

/-- The resource that was revalidated is back in the cache. -/
def comeBack (r : Nat) (response : Response) : Cache Url :=
  let s := s.setEntry (s.resources r).url r
  let s := s.modify r fun resource => { resource with inCache := true, response := response }
  let s := s.insertInLRUList r
  let s := if (s.resources r).decodedSize ≠ 0 ∧ (s.resources r).hasClients then
      s.insertInLiveDecodedResourcesList r
    else s
  s.adjustSize (s.resources r).hasClients (s.size r)

def revalidationSucceeded (n r : Nat) (response : Response) : Cache Url :=
  let s := s.modify n fun resource => { resource with validating := false }
  ((s.evict n).comeBack r response).switchClientsToRevalidatedResource n r

def clearResourceToRevalidate (n : Nat) : Cache Url :=
  let s := match (s.resources n).resourceToRevalidate with
    | some r =>
      if (s.resources r).proxyResource = some n then
        (s.modify r fun resource => { resource with proxyResource := none }).deleteIfPossible r
      else s
    | none => s
  let s := s.modify n fun resource =>
    { resource with handlesToRevalidate := 0, resourceToRevalidate := none, validating := false }
  s.deleteIfPossible n

/-- A resource is inserted into or removed from the live decoded list if necessary. -/
def moveInLiveDecodedResourcesList (r : Nat) : Cache Url :=
  let resource := s.resources r
  if resource.decodedSize ≠ 0 ∧ ¬resource.inLiveDecodedResourcesList ∧ resource.hasClients then
    s.insertInLiveDecodedResourcesList r
  else if resource.decodedSize = 0 ∧ resource.inLiveDecodedResourcesList then
    s.removeFromLiveDecodedResourcesList r
  else s

def setDecodedSize (r : Nat) (size : BitVec 32) : Cache Url :=
  let setSize (s : Cache Url) := s.modify r fun resource => { resource with decodedSize := size }
  if size = (s.resources r).decodedSize then s
  else if (s.resources r).inCache then
    ((setSize (s.removeFromLRUList r)).insertInLRUList r).moveInLiveDecodedResourcesList r
      |>.adjustSize (s.resources r).hasClients (size - (s.resources r).decodedSize)
  else setSize s

def setEncodedSize (r : Nat) (size : BitVec 32) : Cache Url :=
  let setSize (s : Cache Url) := s.modify r fun resource => { resource with encodedSize := size }
  if size = (s.resources r).encodedSize then s
  else if (s.resources r).inCache then
    (setSize (s.removeFromLRUList r)).insertInLRUList r
      |>.adjustSize (s.resources r).hasClients (size - (s.resources r).encodedSize)
  else setSize s

/-- `destroyDecodedData` leaves at most what there was. -/
def destroyDecodedData (r : Nat) (kept : BitVec 32) : Cache Url :=
  s.setDecodedSize r (if kept < (s.resources r).decodedSize then kept else (s.resources r).decodedSize)

def unregisterHandle (r : Nat) : Cache Url :=
  let s := s.modify r fun resource =>
    { resource with
      handleCount := resource.handleCount - 1
      handlesToRevalidate :=
        if resource.isCacheValidator then resource.handlesToRevalidate - 1
        else resource.handlesToRevalidate }
  if (s.resources r).handleCount = 0 then s.deleteIfPossible r else s

def deadCapacity : BitVec 32 :=
  let capacity := s.capacity - (if s.liveSize < s.capacity then s.liveSize else s.capacity)
  let capacity := if capacity < s.minDeadCapacity then s.minDeadCapacity else capacity
  if s.maxDeadCapacity < capacity then s.maxDeadCapacity else capacity

def liveCapacity : BitVec 32 := s.capacity - s.deadCapacity

def prune : List Item :=
  if s.liveSize + s.deadSize ≤ s.capacity ∧ s.maxDeadCapacity ≠ 0 ∧ s.deadSize ≤ s.maxDeadCapacity then
    []
  else [.pruneDead, .pruneLive]

def didAccessDecodedData (r : Nat) : Cache Url × List Item :=
  if (s.resources r).inCache then
    let s := if (s.resources r).inLiveDecodedResourcesList then
        (s.removeFromLiveDecodedResourcesList r).insertInLiveDecodedResourcesList r
      else s
    (s, s.prune)
  else (s, [])

def removeClient (r client : Nat) : Cache Url × List Item :=
  let s := s.modify r fun resource => { resource with clients := resource.clients.erase client }
  if (s.resources r).canDelete ∧ ¬(s.resources r).inCache then (s.delete r, [])
  else if ¬(s.resources r).hasClients ∧ (s.resources r).inCache then
    ((s.removeFromLiveResourcesSize r).removeFromLiveDecodedResourcesList r, [.allClientsRemoved r])
  else (s, [])

/-- What `removeClient` does when its last client is gone, and the resource has been told. -/
def clientsRemoved (r : Nat) : Cache Url × List Item :=
  if (s.resources r).response.cacheControlContainsNoStore then (s.evict r, []) else (s, s.prune)

/-- A client of a resource is removed. -/
def letGo (r client : Nat) : Option (Cache Url × List Item) :=
  if r < s.created ∧ ¬(s.resources r).deleted ∧ client ∈ (s.resources r).clients then
    some (s.removeClient r client)
  else
    none

/-- The end of `pruneDeadResources`. -/
def pruned : Cache Url × List Item := ({ s with inPruneDeadResources := false }, [])

def turn : Item → Event Url → Option (Cache Url × List Item)
  | .switching n, .proceed .. => some (s.clearResourceToRevalidate n, [])
  | .allClientsRemoved r, .proceed _ _ kept => some ((s.destroyDecodedData r kept).clientsRemoved r)
  | .disabling, .entry url => (s.get url).map fun r => (s.evict r, [.disabling])
  | .disabling, .removeClient r client =>
    (s.letGo r client).map fun next => (next.1, next.2 ++ [.disabling])
  | .disabling, .proceed .. => if s.entries.isEmpty then some (s, []) else none
  | .pruneDead, .proceed .. =>
    if ¬s.pruneEnabled ∨ s.deadCapacity ≠ 0 ∧ s.deadSize ≤ s.deadCapacity then some (s, [])
    else
      let targetSize := s.targetPrune s.deadCapacity
      let size := s.allResources.size
      if s.inPruneDeadResources then some (s, [.lists targetSize true size])
      else some (s, [.purging targetSize size 0 (s.allResources.ends 0).tail])
  | .purging targetSize size list (some r), .proceed purged _ _ =>
    let prev := s.allResources.links.prev r
    some (if purged then s.evict r else s, [.purging targetSize size list prev])
  | .purging targetSize size list none, .proceed .. =>
    if list + 1 < size then
      some (s, [.purging targetSize size (list + 1) (s.allResources.ends (list + 1)).tail])
    else if targetSize ≠ 0 ∧ s.deadSize ≤ targetSize then some (s, [])
    else some ({ s with inPruneDeadResources := true }, [.lists targetSize true size])
  | .lists _ _ 0, .proceed .. => some s.pruned
  | .lists targetSize canShrink (list + 1), .proceed .. =>
    some (s, [.flushing targetSize canShrink list (s.allResources.ends list).tail])
  | .flushing targetSize canShrink list (some r), .proceed _ _ kept =>
    let prev := s.allResources.links.prev r
    let resource := s.resources r
    if ¬resource.hasClients ∧ ¬resource.isPreloaded ∧ ¬resource.loading then
      let s := s.destroyDecodedData r kept
      if targetSize ≠ 0 ∧ s.deadSize ≤ targetSize then some s.pruned
      else some (s, [.flushing targetSize canShrink list prev])
    else some (s, [.flushing targetSize canShrink list prev])
  | .flushing targetSize canShrink list none, .proceed .. =>
    some (s, [.evicting targetSize canShrink list (s.allResources.ends list).tail])
  | .evicting targetSize canShrink list (some r), .proceed .. =>
    let prev := s.allResources.links.prev r
    let resource := s.resources r
    if ¬resource.hasClients ∧ ¬resource.isPreloaded ∧ ¬resource.isCacheValidator then
      some (s.evict r, [.evicted targetSize canShrink list prev])
    else some (s, [.evicting targetSize canShrink list prev])
  | .evicting targetSize canShrink list none, .proceed .. =>
    if (s.allResources.ends list).head.isSome then some (s, [.lists targetSize false list])
    else some (if canShrink then { s with allResources := s.allResources.resize list } else s,
        [.lists targetSize canShrink list])
  | .evicted targetSize canShrink list current, .removeClient r client =>
    (s.letGo r client).map fun next => (next.1, next.2 ++ [.evicted targetSize canShrink list current])
  | .evicted targetSize canShrink list current, .proceed .. =>
    if ¬s.inPruneDeadResources then some (s, [])
    else if targetSize ≠ 0 ∧ s.deadSize ≤ targetSize then some s.pruned
    else some (s, [.evicting targetSize canShrink list current])
  | .pruneLive, .proceed .. =>
    if ¬s.pruneEnabled ∨ s.liveCapacity ≠ 0 ∧ s.liveSize ≤ s.liveCapacity then some (s, [])
    else some (s, [.pruningLive (s.targetPrune s.liveCapacity) s.liveDecodedResources.ends.tail])
  | .pruningLive targetSize (some r), .proceed _ tooNew kept =>
    let prev := s.liveDecodedResources.links.prev r
    if (s.resources r).decodedSize = 0 then some (s, [.pruningLive targetSize prev])
    else if tooNew then some (s, [])
    else
      let s := s.destroyDecodedData r kept
      if targetSize ≠ 0 ∧ s.liveSize ≤ targetSize then some (s, [])
      else some (s, [.pruningLive targetSize prev])
  | .pruningLive _ none, .proceed .. => some (s, [])
  | _, _ => none

/-- A resource that exists is changed. -/
def change (r : Nat) (change : CachedResource Url → CachedResource Url) :
    Option (Cache Url × List Item) :=
  if r < s.created ∧ ¬(s.resources r).deleted then some (s.modify r change, []) else none

def call : Event Url → Option (Cache Url × List Item)
  | .requestResource type url isPreload purged refused load =>
    some (s.requestResource type url isPreload purged refused load, [])
  | .requestUserCSSStyleSheet url purged load => some (s.requestUserCSSStyleSheet url purged load, [])
  | .revalidateResource r load =>
    if s.get (s.resources r).url = some r then some (s.revalidateResource r load, []) else none
  | .revalidationSucceeded n response =>
    if (s.resources n).validating then
      (s.resources n).resourceToRevalidate.map fun r =>
        (s.revalidationSucceeded n r response, [.switching n])
    else none
  | .revalidationFailed n =>
    if (s.resources n).validating then some (s.clearResourceToRevalidate n, []) else none
  | .addClient r client =>
    if r < s.created ∧ ¬(s.resources r).deleted then some (s.addClientToSet r client, []) else none
  | .removeClient r client => s.letGo r client
  | .setDecodedSize r size =>
    if r < s.created ∧ ¬(s.resources r).deleted then some (s.setDecodedSize r size, []) else none
  | .setEncodedSize r size =>
    if r < s.created ∧ ¬(s.resources r).deleted then some (s.setEncodedSize r size, []) else none
  | .didAccessDecodedData r =>
    if r < s.created ∧ ¬(s.resources r).deleted then some (s.didAccessDecodedData r) else none
  | .setRequest r request =>
    (s.change r fun resource => { resource with request := request }).map fun next =>
      (next.1.deleteIfPossible r, [])
  | .setResponse r response => s.change r fun resource => { resource with response := response }
  | .setLoading r loading => s.change r fun resource => { resource with loading := loading }
  | .error r => s.change r fun resource => { resource with errorOccurred := true, loading := false }
  | .increasePreloadCount r =>
    s.change r fun resource => { resource with preloadCount := resource.preloadCount + 1 }
  | .decreasePreloadCount r =>
    s.change r fun resource => { resource with preloadCount := resource.preloadCount - 1 }
  | .registerHandle r => s.change r fun resource =>
      { resource with
        handleCount := resource.handleCount + 1
        handlesToRevalidate :=
          if resource.isCacheValidator then resource.handlesToRevalidate + 1
          else resource.handlesToRevalidate }
  | .unregisterHandle r =>
    if r < s.created ∧ ¬(s.resources r).deleted then some (s.unregisterHandle r, []) else none
  | .remove r =>
    if r < s.created ∧ ¬(s.resources r).deleted then some (s.evict r, []) else none
  | .setCapacities minDeadBytes maxDeadBytes totalBytes =>
    let s : Cache Url := { s with
      minDeadCapacity := minDeadBytes, maxDeadCapacity := maxDeadBytes, capacity := totalBytes }
    some (s, s.prune)
  | .setDisabled disabled =>
    some ({ s with disabled := disabled }, if disabled then [.disabling] else [])
  | .setPruneEnabled enabled => some ({ s with pruneEnabled := enabled }, [])
  | .prune => some (s, s.prune)
  | _ => none

def waits : Item → Bool
  | .switching _ => true
  | _ => false

def machine : Reentrant (Cache Url) Item (Event Url) where
  turn s := s.turn
  call s := s.call
  waits := waits

end Cache

end WkcBrowser.MemoryCache
