import WkcBrowser.Dom.ContainerNode
import WkcBrowser.Dom.DocumentOrder
import WkcBrowser.Lib.Walks
import WkcBrowser.Wtf.StringImpl

/-! The elements that a WebCore `Document` keeps by their ids. -/

namespace WkcBrowser.Dom

open Lib Wtf

/-- A document and the nodes that were made for it. -/
structure ElementIds (N : Type) where
  nodes : Nodes N
  document : N
  /-- The class of the element is derived from `StyledElement`. -/
  styled : N → Bool
  id : N → AtomicString
  hasID : N → Bool
  elementsById : Text → Option N := fun _ => none
  duplicateIds : Text → Nat := fun _ => 0

namespace ElementIds

variable {N : Type} [Fintype N] [DecidableEq N] (ids : ElementIds N)

def isElementNode (n : N) : Bool := ids.nodes.nodeType n = .element

def setElement (elementId : Text) (element : Option N) : ElementIds N :=
  { ids with elementsById := Function.update ids.elementsById elementId element }

def addDuplicate (elementId : Text) : ElementIds N :=
  { ids with
    duplicateIds := Function.update ids.duplicateIds elementId (ids.duplicateIds elementId + 1) }

def removeDuplicate (elementId : Text) : ElementIds N :=
  { ids with
    duplicateIds := Function.update ids.duplicateIds elementId (ids.duplicateIds elementId - 1) }

def addElementById (elementId : Text) (element : N) : ElementIds N :=
  if ids.duplicateIds elementId = 0 then
    match ids.elementsById elementId with
    | none => ids.setElement elementId (some element)
    | some _ => ((ids.setElement elementId none).addDuplicate elementId).addDuplicate elementId
  else
    match ids.elementsById elementId with
    | none => ids.addDuplicate elementId
    | some _ => ((ids.setElement elementId none).addDuplicate elementId).addDuplicate elementId

def removeElementById (elementId : Text) (element : N) : ElementIds N :=
  if ids.elementsById elementId = some element then ids.setElement elementId none
  else ids.removeDuplicate elementId

def updateId (element : N) (oldId newId : AtomicString) : ElementIds N :=
  if !ids.nodes.inDocument element then ids
  else if oldId = newId then ids
  else
    let ids := if !oldId.isEmpty then ids.removeElementById (oldId.getD []) element else ids
    if !newId.isEmpty then ids.addElementById (newId.getD []) element else ids

/-- What `Element::insertedIntoDocument` does after the children. -/
def elementInserted (n : N) : ElementIds N :=
  if ids.isElementNode n ∧ ids.hasID n ∧ ids.id n ≠ none then ids.updateId n none (ids.id n) else ids

/-- What `Element::removedFromDocument` does before the children. -/
def elementRemoved (n : N) : ElementIds N :=
  if ids.isElementNode n ∧ ids.hasID n ∧ ids.id n ≠ none then ids.updateId n (ids.id n) none else ids

/-- A child without a parent is put in its place, when the hierarchy allows it. -/
def insert (this : N) (place : Place N) (child : N) : ElementIds N :=
  let state : State N := ⟨ids.nodes, none⟩
  if state.linkable this place child ∧ ids.nodes.inSubtree child this = false ∧
      ids.nodes.childTypeAllowed this (ids.nodes.nodeType child) then
    let nodes := state.link this place child
    let inserted := { ids with nodes := nodes.inserted child }
    if nodes.inDocument this then
      (postorderTo nodes.childNodes (Fintype.card N) child).foldl elementInserted inserted
    else inserted
  else ids

/-- A child is taken from its parent. -/
def remove (child : N) : ElementIds N :=
  match ids.nodes.parentNode child with
  | none => ids
  | some parent =>
    let nodes := ids.nodes.unlink parent child
    let unlinked := { ids with nodes }
    let removed :=
      if nodes.inDocument child then (nodes.inOrder child).foldl elementRemoved unlinked else unlinked
    { removed with nodes := nodes.removed child }

/-- What a change of the attribute does, for a class derived from `StyledElement`. -/
def attributeChanged (element : N) : ElementIds N :=
  if ids.styled element then
    { ids with hasID := Function.update ids.hasID element (ids.id element ≠ none) }
  else ids

def setAttributeValue (element : N) (value : AtomicString) : ElementIds N :=
  attributeChanged { ids with id := Function.update ids.id element value } element

/-- `Element::setAttribute` for the id attribute, which `removeAttribute` calls with null. -/
def setAttribute (element : N) (value : AtomicString) : ElementIds N :=
  if !ids.isElementNode element then ids
  else
    let old := ids.id element
    let updated := ids.updateId element old value
    if old = none ∧ value = none then updated else updated.setAttributeValue element value

/-- `Attr::setValue` for the id attribute. -/
def setAttrValue (element : N) (value : Text) : ElementIds N :=
  if ids.isElementNode element ∧ ids.id element ≠ none then
    ids.setAttributeValue element (some value)
  else ids

def getElementById (elementId : AtomicString) : Option N × ElementIds N :=
  if elementId.isEmpty then (none, ids)
  else
    let key := elementId.getD []
    match ids.elementsById key with
    | some element => (some element, ids)
    | none =>
      if ids.duplicateIds key = 0 then (none, ids)
      else
        let found := search (ids.nodes.traverseNextNode none)
          (fun n => ids.isElementNode n && ids.hasID n && ids.id n = elementId) (Fintype.card N)
          (ids.nodes.traverseNextNode none ids.document)
        match found with
        | some element => (some element, (ids.removeDuplicate key).setElement key (some element))
        | none => (none, ids)

inductive Event (N : Type) where
  | insert (this : N) (place : Place N) (child : N)
  | remove (child : N)
  | setAttribute (element : N) (value : AtomicString)
  | setAttrValue (element : N) (value : Text)
  | getElementById (elementId : AtomicString)

def step : Event N → ElementIds N
  | .insert this place child => ids.insert this place child
  | .remove child => ids.remove child
  | .setAttribute element value => ids.setAttribute element value
  | .setAttrValue element value => ids.setAttrValue element value
  | .getElementById elementId => (ids.getElementById elementId).2

end ElementIds

end WkcBrowser.Dom
