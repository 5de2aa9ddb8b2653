import Mathlib.Data.Fintype.Card
import Mathlib.Logic.Relation
import WkcBrowser.Lib.LinkedList

/-! The nodes of WebCore's `dom` directory: their links, the checks of `Node` and `Document` before
children change, and the places where `ContainerNode` links children and unlinks them. -/

namespace WkcBrowser.Dom

open Lib

inductive NodeType where
  | element
  | attribute
  | text
  | cdataSection
  | entityReference
  | entity
  | processingInstruction
  | comment
  | document
  | documentType
  | documentFragment
  | notation_
  | xpathNamespace
deriving DecidableEq

inductive ExceptionCode where
  | hierarchyRequestErr
  | wrongDocumentErr
  | noModificationAllowedErr
  | notFoundErr
deriving DecidableEq

/-- All nodes that ever exist, with their links. The links of siblings are shared by the lists of all
containers. -/
structure Nodes (N : Type) where
  nodeType : N → NodeType
  document : N → N
  inDocument : N → Bool
  parentNode : N → Option N
  siblings : Links N
  /-- `m_firstChild` and `m_lastChild` -/
  children : N → Ends N

namespace Nodes

variable {N : Type}

section
variable (nodes : Nodes N)

def firstChild (n : N) : Option N := (nodes.children n).head

def lastChild (n : N) : Option N := (nodes.children n).tail

def nextSibling (n : N) : Option N := nodes.siblings.next n

def previousSibling (n : N) : Option N := nodes.siblings.prev n

def isReadOnlyNode (n : N) : Bool := nodes.nodeType n = .entityReference

/-- The parents that a loop over `parentNode` finds in some steps. -/
def ancestors : Nat → N → List N
  | 0, _ => []
  | steps + 1, n =>
    match nodes.parentNode n with
    | none => []
    | some parent => parent :: ancestors steps parent

/-- The nodes that a loop over `nextSibling` finds in some steps. -/
def nodesFrom : Nat → Option N → List N
  | 0, _ => []
  | _, none => []
  | steps + 1, some n => n :: nodesFrom steps (nodes.nextSibling n)

end

variable [DecidableEq N]

section
variable [Fintype N] (nodes : Nodes N)

def isDescendantOf (n other : N) : Bool := other ∈ nodes.ancestors (Fintype.card N) n

/-- What a loop from a node over `traverseNextNode`, within that node, finds. -/
def inSubtree (root n : N) : Bool := n = root || nodes.isDescendantOf n root

def childNodes (n : N) : List N := nodes.nodesFrom (Fintype.card N) (nodes.firstChild n)

def documentChildTypeAllowed (this : N) : NodeType → Bool
  | .comment | .processingInstruction => true
  | .documentType => (nodes.childNodes this).all (nodes.nodeType · ≠ .documentType)
  | .element => (nodes.childNodes this).all (nodes.nodeType · ≠ .element)
  | _ => false

/-- The types of the children of elements and document fragments. -/
def elementChildTypeAllowed : NodeType → Bool
  | .element | .text | .comment | .processingInstruction | .cdataSection | .entityReference => true
  | _ => false

def childTypeAllowed (this : N) (type : NodeType) : Bool :=
  match nodes.nodeType this with
  | .document => nodes.documentChildTypeAllowed this type
  | .element | .documentFragment => elementChildTypeAllowed type
  | .attribute => type = .text || type = .entityReference
  | _ => false

/-- The type of a new child, or those of the children of a fragment, are allowed. -/
def childTypesAllowed (this newChild : N) : Bool :=
  if nodes.nodeType newChild ≠ .documentFragment then
    nodes.childTypeAllowed this (nodes.nodeType newChild)
  else (nodes.childNodes newChild).all fun n => nodes.childTypeAllowed this (nodes.nodeType n)

def isForbiddenInDocument : NodeType → Bool
  | .comment | .processingInstruction | .documentType | .element => false
  | _ => true

/-- The number of children of a type, with one left out. -/
def countChildren (this : N) (oldChild : Option N) (type : NodeType) : Nat :=
  (nodes.childNodes this).countP fun c => some c ≠ oldChild ∧ nodes.nodeType c = type

def documentCanReplaceChild (this newChild : N) (oldChild : Option N) : Bool :=
  match oldChild with
  | none => true
  | some old =>
    if nodes.nodeType old = nodes.nodeType newChild then true
    else
      let numDoctypes := nodes.countChildren this (some old) .documentType
      let numElements := nodes.countChildren this (some old) .element
      let newType := nodes.nodeType newChild
      if newType = .documentFragment then
        -- These are the children of the document and not of the fragment.
        if (nodes.childNodes this).any fun c => isForbiddenInDocument (nodes.nodeType c) then false
        else
          let numDoctypes := numDoctypes + nodes.countChildren this none .documentType
          let numElements := numElements + nodes.countChildren this none .element
          !(numElements > 1 || numDoctypes > 1)
      else if isForbiddenInDocument newType then false
      else if newType = .comment ∨ newType = .processingInstruction then true
      else
        let numDoctypes := numDoctypes + if newType = .documentType then 1 else 0
        let numElements := numElements + if newType = .element then 1 else 0
        !(numElements > 1 || numDoctypes > 1)

def canReplaceChild (this newChild : N) (oldChild : Option N) : Bool :=
  if nodes.nodeType this = .document then nodes.documentCanReplaceChild this newChild oldChild
  else nodes.childTypesAllowed this newChild

/-- `setDocument` on a new child and all nodes below it. -/
def adopt (this newChild : N) : Nodes N :=
  { nodes with
    document := fun n =>
      if nodes.inSubtree newChild n && !nodes.inDocument n then nodes.document this
      else nodes.document n }

/-- `checkAddChild` and `checkReplaceChild`, with their own check of types. -/
def checkChild (this : N) (newChild : Option N) (typesAllowed : N → Bool) :
    Nodes N × Option ExceptionCode :=
  match newChild with
  | none => (nodes, some .notFoundErr)
  | some newChild =>
    if nodes.isReadOnlyNode this then (nodes, some .noModificationAllowedErr)
    else if nodes.document newChild ≠ nodes.document this ∧ nodes.inDocument newChild then
      (nodes, some .wrongDocumentErr)
    else if newChild = this ∨ nodes.isDescendantOf this newChild then
      (nodes, some .hierarchyRequestErr)
    else if !typesAllowed newChild then (nodes, some .hierarchyRequestErr)
    else if nodes.document newChild ≠ nodes.document this then (nodes.adopt this newChild, none)
    else (nodes, none)

def checkAddChild (this : N) (newChild : Option N) : Nodes N × Option ExceptionCode :=
  nodes.checkChild this newChild (nodes.childTypesAllowed this)

def checkReplaceChild (this : N) (newChild oldChild : Option N) : Nodes N × Option ExceptionCode :=
  nodes.checkChild this newChild fun newChild => nodes.canReplaceChild this newChild oldChild

/-- `insertedIntoDocument` and `removedFromDocument`. -/
def setInDocument (root : N) (inside : Bool) : Nodes N :=
  { nodes with
    inDocument := fun n => if nodes.inSubtree root n then inside else nodes.inDocument n }

/-- The start of `dispatchChildInsertionEvents`. -/
def inserted (child : N) : Nodes N :=
  match nodes.parentNode child with
  | none => nodes
  | some parent => if nodes.inDocument parent then nodes.setInDocument child true else nodes

/-- The end of `removeChild`. -/
def removed (child : N) : Nodes N :=
  if nodes.inDocument child then nodes.setInDocument child false else nodes

end

variable (nodes : Nodes N)

def setNextSibling (n : N) (next : Option N) : Nodes N :=
  { nodes with siblings := { nodes.siblings with next := Function.update nodes.siblings.next n next } }

def setPreviousSibling (n : N) (prev : Option N) : Nodes N :=
  { nodes with siblings := { nodes.siblings with prev := Function.update nodes.siblings.prev n prev } }

def setParent (n : N) (parent : Option N) : Nodes N :=
  { nodes with parentNode := Function.update nodes.parentNode n parent }

def setFirstChild (this : N) (child : Option N) : Nodes N :=
  { nodes with
    children := Function.update nodes.children this { nodes.children this with head := child } }

def setLastChild (this : N) (child : Option N) : Nodes N :=
  { nodes with
    children := Function.update nodes.children this { nodes.children this with tail := child } }

/-- `insertBefore` adds a child before `next`. -/
def linkBefore (this next child : N) : Nodes N :=
  let prev := nodes.previousSibling next
  let nodes := nodes.setPreviousSibling next child
  let nodes := match prev with
    | some prev => nodes.setNextSibling prev child
    | none => nodes.setFirstChild this child
  ((nodes.setParent child this).setPreviousSibling child prev).setNextSibling child next

/-- `replaceChild` adds a child after `prev`, or as the first one. -/
def linkAfter (this : N) (prev : Option N) (child : N) : Nodes N :=
  let next := match prev with
    | some prev => nodes.nextSibling prev
    | none => nodes.firstChild this
  let nodes := match prev with
    | some prev => nodes.setNextSibling prev child
    | none => nodes.setFirstChild this child
  let nodes := match next with
    | some next => nodes.setPreviousSibling next child
    | none => nodes.setLastChild this child
  ((nodes.setParent child this).setPreviousSibling child prev).setNextSibling child next

/-- `appendChild` adds a child at the end. -/
def linkLast (this child : N) : Nodes N :=
  let nodes := nodes.setParent child this
  let nodes := match nodes.lastChild this with
    | some last => (nodes.setPreviousSibling child last).setNextSibling last child
    | none => nodes.setFirstChild this child
  nodes.setLastChild this child

/-- `removeChild` takes a child out. -/
def unlink (this child : N) : Nodes N :=
  let prev := nodes.previousSibling child
  let next := nodes.nextSibling child
  let nodes := match next with
    | some next => nodes.setPreviousSibling next prev
    | none => nodes
  let nodes := match prev with
    | some prev => nodes.setNextSibling prev next
    | none => nodes
  let nodes := if nodes.firstChild this = some child then nodes.setFirstChild this next else nodes
  let nodes := if nodes.lastChild this = some child then nodes.setLastChild this prev else nodes
  ((nodes.setPreviousSibling child none).setNextSibling child none).setParent child none

/-- `removeChildren` takes one child after the other out from the front, in some steps. -/
def unlinkAll (this : N) : Nat → Nodes N → Nodes N
  | 0, nodes => nodes
  | steps + 1, nodes =>
    match nodes.firstChild this with
    | none => nodes
    | some n =>
      let next := nodes.nextSibling n
      let nodes := ((nodes.setPreviousSibling n none).setNextSibling n none).setParent n none
      let nodes := nodes.setFirstChild this next
      let nodes := if nodes.lastChild this = some n then nodes.setLastChild this none else nodes
      unlinkAll this steps nodes

end Nodes

end WkcBrowser.Dom
