import Mathlib.Data.BitVec
import WkcBrowser.Dom.DocumentOrder

/-! WebCore's `ChildNodeList` and `DynamicNodeList`, with the caches that they walk from. -/

namespace WkcBrowser.Dom

open Lib

/-- Linked nodes as memory holds them. -/
structure Tree (N : Type) [Fintype N] [DecidableEq N] where
  nodes : Nodes N
  forest : nodes.Forest
  small : ∀ n, (nodes.inOrder n).length < 2 ^ 31

/-- `DynamicNodeList::Caches` -/
structure Caches (N : Type) where
  lastItem : Option N := none
  lastItemOffset : BitVec 32
  cachedLength : BitVec 32
  isLengthCacheValid : Bool := false
  isItemCacheValid : Bool := false

def Caches.reset {N : Type} (caches : Caches N) : Caches N :=
  { caches with lastItem := none, isLengthCacheValid := false, isItemCacheValid := false }

/-- The loops of `length`, in some steps. -/
def countFrom {N : Type} (next : N → Option N) (counted : N → Bool) :
    Nat → Option N → BitVec 32 → BitVec 32
  | 0, _, length => length
  | _, none, length => length
  | steps + 1, some n, length =>
    countFrom next counted steps (next n) (length + if counted n then 1 else 0)

/-- The loops of `ChildNodeList::item` from one position to another, in some steps. -/
def walk {N : Type} (next : N → Option N) : Nat → Option N → Option N
  | 0, n => n
  | _, none => none
  | steps + 1, some n => walk next steps (next n)

/-- `itemForwardsFromCurrent` and `itemBackwardsFromCurrent`, which count towards zero, in some steps. -/
def itemFromCurrent {N : Type} (next : N → Option N) (accepts : N → Bool) (towardsZero : Int) :
    Nat → Option N → Int → Option N
  | 0, _, _ => none
  | _, none, _ => none
  | steps + 1, some n, remainingOffset =>
    if accepts n then
      if remainingOffset = 0 then some n
      else itemFromCurrent next accepts towardsZero steps (next n) (remainingOffset + towardsZero)
    else itemFromCurrent next accepts towardsZero steps (next n) remainingOffset

inductive ListKind where
  | childNodeList
  | dynamicNodeList
deriving DecidableEq

structure NodeList (N : Type) [Fintype N] [DecidableEq N] where
  kind : ListKind
  rootNode : N
  tree : Tree N
  nodeMatches : N → Bool
  caches : Caches N

namespace NodeList

variable {N : Type} [Fintype N] [DecidableEq N] (list : NodeList N)

def firstChild : Option N := list.tree.nodes.firstChild list.rootNode

/-- An element that matches. -/
def accepts (n : N) : Bool := list.tree.nodes.nodeType n = .element && list.nodeMatches n

def traverseNextNode : N → Option N := list.tree.nodes.traverseNextNode (some list.rootNode)

def traversePreviousNode : N → Option N :=
  list.tree.nodes.traversePreviousNode (some list.rootNode)

def length : BitVec 32 × NodeList N :=
  if list.caches.isLengthCacheValid then (list.caches.cachedLength, list)
  else
    let length := match list.kind with
      | .childNodeList =>
        countFrom list.tree.nodes.nextSibling (fun _ => true) (Fintype.card N) list.firstChild 0
      | .dynamicNodeList =>
        countFrom list.traverseNextNode list.accepts (Fintype.card N) list.firstChild 0
    (length, { list with
      caches := { list.caches with cachedLength := length, isLengthCacheValid := true } })

/-- What an item that is found leaves in the caches. -/
def remember (item : Option N) (offset : BitVec 32) : Option N × NodeList N :=
  match item with
  | none => (none, list)
  | some n =>
    (some n, { list with
      caches := { list.caches with
        lastItem := some n, lastItemOffset := offset, isItemCacheValid := true } })

/-- The node that `ChildNodeList::item` walks from when no cached item is nearer, with its position. -/
def nearest (index : BitVec 32) : Option N × BitVec 32 :=
  if list.caches.isItemCacheValid ∧ (index - list.caches.lastItemOffset).abs < index then
    (list.caches.lastItem, list.caches.lastItemOffset)
  else (list.firstChild, 0)

def childItem (index : BitVec 32) : Option N × NodeList N :=
  if list.caches.isItemCacheValid ∧ index = list.caches.lastItemOffset then
    (list.caches.lastItem, list)
  else
    let (n, pos) := list.nearest index
    if list.caches.isLengthCacheValid ∧ index ≥ list.caches.cachedLength then (none, list)
    else
      let (n, pos) :=
        if list.caches.isLengthCacheValid ∧
            (index - pos).abs > list.caches.cachedLength - 1 - index then
          (list.tree.nodes.lastChild list.rootNode, list.caches.cachedLength - 1)
        else (n, pos)
      let item :=
        if pos ≤ index then walk list.tree.nodes.nextSibling (index - pos).toNat n
        else walk list.tree.nodes.previousSibling (pos - index).toNat n
      list.remember item index

/-- The node that `DynamicNodeList::item` walks from, and how far. -/
def startOfWalk (offset : BitVec 32) : Option N × Int :=
  if list.caches.isItemCacheValid ∧ (offset > list.caches.lastItemOffset ∨
      list.caches.lastItemOffset - offset < offset) then
    (list.caches.lastItem, (offset - list.caches.lastItemOffset).toInt)
  else (list.firstChild, offset.toInt)

def dynamicItem (offset : BitVec 32) : Option N × NodeList N :=
  if list.caches.isItemCacheValid ∧ offset = list.caches.lastItemOffset then
    (list.caches.lastItem, list)
  else
    let (start, remainingOffset) := list.startOfWalk offset
    let item :=
      if remainingOffset < 0 then
        itemFromCurrent list.traversePreviousNode list.accepts 1 (Fintype.card N) start
          remainingOffset
      else
        itemFromCurrent list.traverseNextNode list.accepts (-1) (Fintype.card N) start
          remainingOffset
    list.remember item offset

def item (index : BitVec 32) : Option N × NodeList N :=
  match list.kind with
  | .childNodeList => list.childItem index
  | .dynamicNodeList => list.dynamicItem index

inductive Event (N : Type) [Fintype N] [DecidableEq N] where
  | length
  | item (index : BitVec 32)
  /-- The nodes change, or what matches, and the caches are reset. -/
  | change (tree : Tree N) (nodeMatches : N → Bool)

def step : Event N → NodeList N
  | .length => list.length.2
  | .item index => (list.item index).2
  | .change tree nodeMatches => { list with tree, nodeMatches, caches := list.caches.reset }

/-- What a walk over the tree as it is finds. -/
def freshItems : List N :=
  match list.kind with
  | .childNodeList => list.tree.nodes.childNodes list.rootNode
  | .dynamicNodeList => (list.tree.nodes.inOrder list.rootNode).tail.filter list.accepts

end NodeList

end WkcBrowser.Dom
