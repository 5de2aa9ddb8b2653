import WkcBrowser.Dom.NodeList
import WkcBrowser.Lib.Walks
import WkcBrowser.Wtf.StringImpl

/-! WebCore's `HTMLCollection` and `HTMLNameCollection`, with the cache that all calls share. -/

namespace WkcBrowser.Html

open Lib Wtf Dom

/-- The local names that collections ask for. -/
inductive LocalName where
  | a
  | applet
  | area
  | embed
  | form
  | iframe
  | img
  | input
  | object
  | option
  | script
  | select
  | tbody
  | td
  | th
  | tr
  | other
deriving DecidableEq

/-- What collections read of an element. -/
structure ElementData where
  isHTMLElement : Bool
  localName : LocalName
  inHTMLNamespace : Bool
  /-- `getAttribute(idAttributeName())` -/
  id : AtomicString
  /-- `getAttribute(nameAttr)` -/
  name : AtomicString
  /-- `getAttribute(hrefAttr)` -/
  href : AtomicString
  containsJavaApplet : Bool
  isDocNamedItem : Bool
  disabled : Bool
  value : AtomicString

def ElementData.hasTagName (e : ElementData) (tag : LocalName) : Bool :=
  e.localName = tag && e.inHTMLNamespace

inductive CollectionType where
  | docImages
  | docApplets
  | docEmbeds
  | docObjects
  | docForms
  | docLinks
  | docAnchors
  | docScripts
  | docAll
  | nodeChildren
  | windowNamedItems
  | documentNamedItems
  | tableTBodies
  | tSectionRows
  | trCells
  | selectOptions
  | dataListOptions
  | mapAreas
  | otherCollection
deriving DecidableEq

namespace CollectionType

/-- The first switch of `itemAfter`. -/
def deep : CollectionType → Bool
  | nodeChildren => false
  | trCells => false
  | tSectionRows => false
  | tableTBodies => false
  | _ => true

/-- The second switch of `itemAfter`. -/
def includes (type : CollectionType) (e : ElementData) : Bool :=
  match type with
  | docImages => e.localName = .img
  | docScripts => e.localName = .script
  | docForms => e.localName = .form
  | tableTBodies => e.localName = .tbody
  | trCells => e.localName = .td ∨ e.localName = .th
  | tSectionRows => e.localName = .tr
  | selectOptions => e.localName = .option
  | dataListOptions => e.localName = .option ∧ !e.disabled ∧ !e.value.isEmpty
  | mapAreas => e.localName = .area
  | docApplets => e.localName = .applet ∨ e.localName = .object ∧ e.containsJavaApplet
  | docEmbeds => e.localName = .embed
  | docObjects => e.localName = .object
  | docLinks => (e.localName = .a ∨ e.localName = .area) ∧ e.href ≠ none
  | docAnchors => e.localName = .a ∧ e.name ≠ none
  | docAll => true
  | nodeChildren => true
  | documentNamedItems => false
  | otherCollection => false
  | windowNamedItems => false

/-- The switch of `HTMLNameCollection::itemAfter`. -/
def includesNamed (type : CollectionType) (name : AtomicString) (e : ElementData) : Bool :=
  match type with
  | windowNamedItems =>
    (e.hasTagName .img || e.hasTagName .form || e.hasTagName .applet || e.hasTagName .embed ||
      e.hasTagName .object) && e.name = name || e.id = name
  | documentNamedItems =>
    if e.hasTagName .form || e.hasTagName .embed || e.hasTagName .iframe then e.name = name
    else if e.hasTagName .applet then e.name = name ∨ e.id = name
    else if e.hasTagName .object then (e.name = name ∨ e.id = name) && e.isDocNamedItem
    else if e.hasTagName .img then e.name = name ∨ e.id = name ∧ e.name ≠ none
    else false
  | _ => false

/-- `document.all` returns only some elements by name. -/
def returnsByName (type : CollectionType) (e : ElementData) : Bool :=
  type ≠ docAll ∨ e.localName = .img ∨ e.localName = .form ∨ e.localName = .applet ∨
    e.localName = .object ∨ e.localName = .embed ∨ e.localName = .input ∨ e.localName = .select

end CollectionType

structure CollectionCache (N : Type) where
  version : BitVec 32 := 0
  current : Option N := none
  position : BitVec 32 := 0
  length : BitVec 32 := 0
  hasLength : Bool := false
  idCache : Text → List N := fun _ => []
  nameCache : Text → List N := fun _ => []
  hasNameCache : Bool := false

def CollectionCache.reset {N : Type} (info : CollectionCache N) : CollectionCache N :=
  { version := info.version }

/-- A loop over elements that changes the cache, in some steps. -/
def foldFrom {N S : Type} (next : N → Option N) (body : S → N → S) : Nat → Option N → S → S
  | 0, _, s => s
  | _, none, s => s
  | steps + 1, some n, s => foldFrom next body steps (next n) (body s n)

structure HTMLCollection (N : Type) [Fintype N] [DecidableEq N] where
  base : N
  type : CollectionType
  /-- `m_name` of a `HTMLNameCollection` -/
  name : AtomicString
  tree : Dom.Tree N
  data : N → ElementData
  domTreeVersion : BitVec 32
  idsDone : Bool := false
  info : Option (CollectionCache N)

namespace HTMLCollection

variable {N : Type} [Fintype N] [DecidableEq N]

def create (base : N) (type : CollectionType) (name : AtomicString) (tree : Dom.Tree N)
    (data : N → ElementData) (domTreeVersion : BitVec 32) : HTMLCollection N where
  base
  type
  name
  tree
  data
  domTreeVersion
  -- The cache of a document's collection belongs to the document.
  info := if tree.nodes.nodeType base = .document then some {} else none

variable (collection : HTMLCollection N)

/-- The cache after `resetCollectionInfo`. -/
def resetInfo : CollectionCache N :=
  match collection.info with
  | none => { version := collection.domTreeVersion }
  | some info =>
    if info.version ≠ collection.domTreeVersion then
      { info.reset with version := collection.domTreeVersion }
    else info

def put (info : CollectionCache N) : HTMLCollection N := { collection with info := some info }

def nextNodeOrSibling (node : N) (includeChildren : Bool) : Option N :=
  if includeChildren then collection.tree.nodes.traverseNextNode (some collection.base) node
  else collection.tree.nodes.traverseNextSibling (some collection.base) node

/-- An element that the collection has. -/
def has (n : N) : Bool :=
  collection.tree.nodes.nodeType n = .element &&
    (collection.type.includes (collection.data n) ||
      collection.type.includesNamed collection.name (collection.data n))

def itemAfter (previous : Option N) : Option N :=
  let next := fun n => collection.nextNodeOrSibling n collection.type.deep
  let current := match previous with
    | none => collection.tree.nodes.firstChild collection.base
    | some previous => next previous
  search next collection.has (Fintype.card N) current

/-- `itemAfter` of an element. -/
def following (e : N) : Option N := collection.itemAfter (some e)

def calcLength : BitVec 32 :=
  countFrom collection.following (fun _ => true) (Fintype.card N) (collection.itemAfter none) 0

def length : BitVec 32 × HTMLCollection N :=
  let info := collection.resetInfo
  if info.hasLength then (info.length, collection.put info)
  else
    let length := collection.calcLength
    (length, collection.put { info with length, hasLength := true })

def item (index : BitVec 32) : Option N × HTMLCollection N :=
  let info := collection.resetInfo
  if info.current ≠ none ∧ info.position = index then (info.current, collection.put info)
  else if info.hasLength ∧ info.length ≤ index then (none, collection.put info)
  else
    let (current, position) :=
      if info.current = none ∨ info.position > index then (collection.itemAfter none, 0)
      else (info.current, info.position)
    if current = none then (none, collection.put { info with current, position })
    else
      let e := walk collection.following (index - position).toNat current
      (e, collection.put { info with current := e, position := index })

def firstItem : Option N × HTMLCollection N := collection.item 0

def nextItem : Option N × HTMLCollection N :=
  let info := collection.resetInfo
  let retval := collection.itemAfter info.current
  (retval, collection.put { info with current := retval, position := info.position + 1 })

def checkForNameMatch (element : N) (checkName : Bool) (name : AtomicString) : Bool :=
  let e := collection.data element
  if !e.isHTMLElement then false
  else if !checkName then e.id = name
  else if !collection.type.returnsByName e then false
  else e.name = name ∧ e.id ≠ name

/-- The loops of `namedItem` and `nextNamedItem`. -/
def findNamed (previous : Option N) (checkName : Bool) (name : AtomicString) : Option N :=
  search collection.following (fun e => collection.checkForNameMatch e checkName name)
    (Fintype.card N) (collection.itemAfter previous)

def namedItem (name : AtomicString) : Option N × HTMLCollection N :=
  let info := collection.resetInfo
  match collection.findNamed none false name with
  | some e => (some e, { collection.put { info with current := some e } with idsDone := false })
  | none =>
    let e := collection.findNamed none true name
    (e, { collection.put { info with current := e } with idsDone := true })

def nextNamedItem (name : AtomicString) : Option N × HTMLCollection N :=
  let info := collection.resetInfo
  match collection.findNamed info.current collection.idsDone name with
  | some e => (some e, collection.put { info with current := some e })
  | none =>
    if collection.idsDone then (none, collection.put { info with current := none })
    else
      match collection.findNamed info.current true name with
      | some e => (some e, { collection.put { info with current := some e } with idsDone := true })
      | none => (none, { collection.put info with idsDone := true })

/-- One turn of the loop of `updateNameCache`. -/
def addNames (info : CollectionCache N) (element : N) : CollectionCache N :=
  let e := collection.data element
  if !e.isHTMLElement then info
  else
    let info :=
      if !e.id.isEmpty then
        let key := e.id.getD []
        { info with idCache := Function.update info.idCache key (info.idCache key ++ [element]) }
      else info
    if !e.name.isEmpty ∧ e.id ≠ e.name ∧ collection.type.returnsByName e then
      let key := e.name.getD []
      { info with nameCache := Function.update info.nameCache key (info.nameCache key ++ [element]) }
    else info

def updateNameCache (info : CollectionCache N) : CollectionCache N :=
  if info.hasNameCache then info
  else
    let info := foldFrom collection.following collection.addNames (Fintype.card N)
      (collection.itemAfter none) info
    { info with hasNameCache := true }

def namedItems (name : AtomicString) : List N × HTMLCollection N :=
  if name.isEmpty then ([], collection)
  else
    let info := collection.updateNameCache collection.resetInfo
    let key := name.getD []
    (info.idCache key ++ info.nameCache key, collection.put info)

inductive Event (N : Type) [Fintype N] [DecidableEq N] where
  | length
  | item (index : BitVec 32)
  | firstItem
  | nextItem
  | namedItem (name : AtomicString)
  | nextNamedItem (name : AtomicString)
  | namedItems (name : AtomicString)
  /-- The document changes, and its version with it. -/
  | change (tree : Dom.Tree N) (data : N → ElementData) (domTreeVersion : BitVec 32)

def step : Event N → HTMLCollection N
  | .length => collection.length.2
  | .item index => (collection.item index).2
  | .firstItem => collection.firstItem.2
  | .nextItem => collection.nextItem.2
  | .namedItem name => (collection.namedItem name).2
  | .nextNamedItem name => (collection.nextNamedItem name).2
  | .namedItems name => (collection.namedItems name).2
  | .change tree data domTreeVersion => { collection with tree, data, domTreeVersion }

end HTMLCollection

end WkcBrowser.Html
