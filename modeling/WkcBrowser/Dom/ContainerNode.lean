import WkcBrowser.Dom.Node
import WkcBrowser.Lib.Agenda

/-! The operations of `ContainerNode` that change children, with the places where they dispatch events.
What an operation has still to do is an item; a handler calls an operation while an item waits. -/

namespace WkcBrowser.Dom

open Lib

/-- Where new children go: before a child, after a child or at the front, or at the end. -/
inductive Place (N : Type) where
  | before (next : N)
  | after (prev : Option N)
  | last
deriving DecidableEq

inductive Operation (N : Type) where
  | insertBefore (this : N) (newChild refChild : Option N)
  | replaceChild (this : N) (newChild oldChild : Option N)
  | removeChild (this : N) (oldChild : Option N)
  | removeChildren (this : N)
  | appendChild (this : N) (newChild : Option N)
deriving DecidableEq

inductive Item (N : Type) where
  | removeChild (this : N) (oldChild : Option N)
  /-- `dispatchChildRemovalEvents` -/
  | willRemoveChild (this child : N)
  /-- `removeFocusedNodeOfSubtree` -/
  | removeFocus (this child : N)
  /-- `childrenChanged` and `dispatchSubtreeModifiedEvent` -/
  | removedChild (child : N)
  | replace (this newChild : N) (prev : Option N)
  /-- the loop over new children -/
  | addChildren (this : N) (place : Place N) (isFragment : Bool) (child : Option N)
  | addChild (this : N) (place : Place N) (isFragment : Bool) (child : N) (nextChild : Option N)
  /-- `childrenChanged` for a new child -/
  | childrenChanged (this : N) (place : Place N) (isFragment : Bool) (child : N)
      (nextChild : Option N)
  /-- `dispatchChildInsertionEvents` -/
  | childInserted (this : N) (place : Place N) (isFragment : Bool) (nextChild : Option N)
  /-- `dispatchSubtreeModifiedEvent` -/
  | subtreeModified
  | willRemoveChildren (this child : N)
  | removeFocusBelow (this : N)
  | removedChildren (children : List N)
deriving DecidableEq

/-- The nodes and the exception code that is given back last. -/
structure State (N : Type) where
  nodes : Nodes N
  ec : Option ExceptionCode := none

inductive Event (N : Type) where
  | resume
  | call (operation : Operation N)
deriving DecidableEq

namespace State

variable {N : Type} [DecidableEq N] [Fintype N] (s : State N)

def fail (ec : ExceptionCode) : State N × List (Item N) := (⟨s.nodes, some ec⟩, [])

def done : State N × List (Item N) := (⟨s.nodes, none⟩, [])

def isFragment (n : N) : Bool := s.nodes.nodeType n = .documentFragment

/-- The first child that an operation adds. -/
def firstNew (newChild : N) : Option N :=
  if s.isFragment newChild then s.nodes.firstChild newChild else some newChild

def appendChild (this : N) (newChild : Option N) : State N × List (Item N) :=
  match s.nodes.checkAddChild this newChild, newChild with
  | (nodes, some ec), _ => (⟨nodes, some ec⟩, [])
  | (_, none), none => s.done
  | (nodes, none), some newChild =>
    let s : State N := ⟨nodes, none⟩
    if s.nodes.lastChild this = some newChild then s.done
    else if s.isFragment newChild ∧ s.nodes.firstChild newChild = none then s.done
    else (s, [.addChildren this .last (s.isFragment newChild) (s.firstNew newChild)])

def insertBefore (this : N) (newChild refChild : Option N) : State N × List (Item N) :=
  match refChild with
  | none => s.appendChild this newChild
  | some refChild =>
    match s.nodes.checkAddChild this newChild, newChild with
    | (nodes, some ec), _ => (⟨nodes, some ec⟩, [])
    | (_, none), none => s.done
    | (nodes, none), some newChild =>
      let s : State N := ⟨nodes, none⟩
      if s.nodes.parentNode refChild ≠ some this then s.fail .notFoundErr
      else if s.isFragment newChild ∧ s.nodes.firstChild newChild = none then s.done
      else if s.nodes.previousSibling refChild = some newChild ∨ refChild = newChild then s.done
      else (s, [.addChildren this (.before refChild) (s.isFragment newChild) (s.firstNew newChild)])

def replaceChild (this : N) (newChild oldChild : Option N) : State N × List (Item N) :=
  if oldChild = newChild then s.done
  else
    match s.nodes.checkReplaceChild this newChild oldChild, newChild with
    | (nodes, some ec), _ => (⟨nodes, some ec⟩, [])
    | (_, none), none => s.done
    | (nodes, none), some newChild =>
      let s : State N := ⟨nodes, none⟩
      match oldChild with
      | none => s.fail .notFoundErr
      | some oldChild =>
        if s.nodes.parentNode oldChild ≠ some this then s.fail .notFoundErr
        else (s, [.removeChild this oldChild,
          .replace this newChild (s.nodes.previousSibling oldChild)])

def removeChildren (this : N) : State N × List (Item N) :=
  match s.nodes.firstChild this with
  | none => (s, [])
  | some n => (s, [.willRemoveChildren this n])

def call : Operation N → State N × List (Item N)
  | .insertBefore this newChild refChild => s.insertBefore this newChild refChild
  | .replaceChild this newChild oldChild => s.replaceChild this newChild oldChild
  | .removeChild this oldChild => (s, [.removeChild this oldChild])
  | .removeChildren this => s.removeChildren this
  | .appendChild this newChild => s.appendChild this newChild

/-- The place is still there, and the child is nowhere. -/
def linkable (this : N) (place : Place N) (child : N) : Bool :=
  (match place with
    | .before next => s.nodes.parentNode next = some this
    | .after (some prev) => s.nodes.parentNode prev = some this
    | .after none => true
    | .last => true) && (s.nodes.parentNode child).isNone

def link (this : N) (place : Place N) (child : N) : Nodes N :=
  match place with
  | .before next => s.nodes.linkBefore this next child
  | .after prev => s.nodes.linkAfter this prev child
  | .last => s.nodes.linkLast this child

/-- The part of the loop after the child is out of its old place. -/
def addChild (this : N) (place : Place N) (isFragment : Bool) (child : N) (nextChild : Option N) :
    State N × List (Item N) :=
  if s.linkable this place child then
    match place with
    | .after _ =>
      (⟨(s.link this place child).inserted child, none⟩,
        [.childInserted this (.after child) isFragment nextChild])
    | _ => (⟨s.link this place child, none⟩,
        [.childrenChanged this place isFragment child nextChild])
  else (⟨s.nodes, none⟩, [.subtreeModified])

/-- The child is already where `replaceChild` puts it. -/
def inPlace (place : Place N) (child : N) : Bool :=
  match place with
  | .after (some prev) => prev = child || s.nodes.previousSibling child = some prev
  | _ => false

/-- One round of the loop, until a child has to be removed. -/
def addChildren (this : N) (place : Place N) (isFragment : Bool) (child : Option N) :
    State N × List (Item N) :=
  match child with
  | none => (s, [.subtreeModified])
  | some child =>
    if s.inPlace place child then (s, [.subtreeModified])
    else
      let nextChild := if isFragment then s.nodes.nextSibling child else none
      match s.nodes.parentNode child with
      | some oldParent => (s, [.removeChild oldParent child,
          .addChild this place isFragment child nextChild])
      | none => s.addChild this place isFragment child nextChild

def resume : Item N → State N × List (Item N)
  | .removeChild this oldChild =>
    if s.nodes.isReadOnlyNode this then s.fail .noModificationAllowedErr
    else
      match oldChild with
      | none => s.fail .notFoundErr
      | some oldChild =>
        if s.nodes.parentNode oldChild ≠ some this then s.fail .notFoundErr
        else (s, [.willRemoveChild this oldChild])
  | .willRemoveChild this child =>
    if s.nodes.parentNode child ≠ some this then s.fail .notFoundErr
    else (s, [.removeFocus this child])
  | .removeFocus this child =>
    if s.nodes.parentNode child ≠ some this then s.fail .notFoundErr
    else (⟨s.nodes.unlink this child, none⟩, [.removedChild child])
  | .removedChild child => (⟨s.nodes.removed child, none⟩, [])
  | .replace this newChild prev =>
    if s.ec ≠ none then (s, [])
    else (s, [.addChildren this (.after prev) (s.isFragment newChild) (s.firstNew newChild)])
  | .addChildren this place isFragment child => s.addChildren this place isFragment child
  | .addChild this place isFragment child nextChild =>
    if s.ec ≠ none then (s, []) else s.addChild this place isFragment child nextChild
  | .childrenChanged this place isFragment child nextChild =>
    (⟨s.nodes.inserted child, none⟩, [.childInserted this place isFragment nextChild])
  | .childInserted this place isFragment nextChild =>
    (s, [.addChildren this place isFragment nextChild])
  | .subtreeModified => s.done
  | .willRemoveChildren this child =>
    match s.nodes.nextSibling child with
    | some next => (s, [.willRemoveChildren this next])
    | none => (s, [.removeFocusBelow this])
  | .removeFocusBelow this =>
    (⟨Nodes.unlinkAll this (Fintype.card N) s.nodes, none⟩,
      [.removedChildren (s.nodes.childNodes this)])
  | .removedChildren children => (⟨children.foldl Nodes.removed s.nodes, none⟩, [])

end State

/-- Handlers run while one of these is on top. -/
def Item.dispatches {N : Type} : Item N → Bool
  | .willRemoveChild .. | .removeFocus .. | .removedChild _ | .childrenChanged .. |
    .childInserted .. | .subtreeModified | .willRemoveChildren .. | .removeFocusBelow _ |
    .removedChildren _ => true
  | .removeChild .. | .replace .. | .addChildren .. | .addChild .. => false

section
variable {N : Type} [DecidableEq N] [Fintype N]

def machine : Reentrant (State N) (Item N) (Event N) where
  turn s item
    | .resume => some (s.resume item)
    | .call _ => none
  call s
    | .resume => none
    | .call operation => some (s.call operation)
  waits := Item.dispatches

def step : Agenda (State N) (Item N) → Event N → Agenda (State N) (Item N) := machine.step

variable {s : State N} {item : Item N} {items : List (Item N)} {operation : Operation N}

theorem step_call (dispatches : item.dispatches = true) :
    step ⟨s, item :: items⟩ (.call operation) =
      ⟨(s.call operation).1, (s.call operation).2 ++ item :: items⟩ :=
  if_pos dispatches

theorem step_call_refused (busy : ¬item.dispatches = true) :
    step ⟨s, item :: items⟩ (.call operation) = ⟨s, item :: items⟩ :=
  if_neg busy

/-- An operation without handlers; nothing is left to do after so many steps. -/
def perform (s : State N) (operation : Operation N) : State N :=
  (after step ⟨s, []⟩
    (.call operation :: List.replicate (8 * Fintype.card N + 8) .resume)).state

end

end WkcBrowser.Dom
