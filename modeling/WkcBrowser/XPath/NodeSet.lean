import Mathlib.Algebra.Group.Nat.Defs
import WkcBrowser.Dom.Forest
import WkcBrowser.Lib.Partition

/-! WebCore's `XPath::NodeSet` and how it is sorted. What the source reads out of the bounds of a
vector, or through a null pointer, has no result here. -/

namespace WkcBrowser.XPath

open Lib Dom

/-- Linked nodes, with the elements that own the attribute nodes. -/
structure AttributedNodes (N : Type) [Fintype N] where
  nodes : Nodes N
  ownerElement : N → Option N
  forest : nodes.Forest
  /-- Attribute nodes are not among the children of a node. -/
  unlinked : ∀ n, nodes.nodeType n = .attribute → nodes.parentNode n = none
  owner : ∀ n e, ownerElement n = some e → nodes.nodeType e = .element
  /-- All nodes have their place in memory. -/
  small : Fintype.card N < 2 ^ 32

namespace AttributedNodes

variable {N : Type} [Fintype N] (tree : AttributedNodes N)

def isAttributeNode (n : N) : Bool := tree.nodes.nodeType n = .attribute

def isElementNode (n : N) : Bool := tree.nodes.nodeType n = .element

/-- The loop of `sort` that appends the parents of a node, in some steps. -/
def parents : Nat → N → Option (List N)
  | 0, _ => none
  | steps + 1, n =>
    match tree.nodes.parentNode n with
    | none => some []
    | some parent => (parent :: ·) <$> parents steps parent

/-- A row of the matrix of parents. -/
def parentsVector (n : N) : Option (List N) :=
  if tree.isAttributeNode n then do
    let owner ← tree.ownerElement n
    let parents ← tree.parents (Fintype.card N) owner
    some (n :: owner :: parents)
  else (n :: ·) <$> tree.parents (Fintype.card N) n

end AttributedNodes

abbrev Matrix (N : Type) := List (List N)

section
variable {N : Type}

def parentWithDepth (depth : Nat) (parents : List N) : Option N :=
  if depth + 1 ≤ parents.length then parents[parents.length - 1 - depth]? else none

/-- The first loop of `sortBlock`, over some rows. -/
def findMinDepth (parentMatrix : Matrix N) : Nat → Nat → Nat → Option Nat
  | 0, _, minDepth => some minDepth
  | rows + 1, i, minDepth => do
    let row ← parentMatrix[i]?
    let depth := row.length - 1
    findMinDepth parentMatrix rows (i + 1) (if minDepth > depth then depth else minDepth)

variable [DecidableEq N]

/-- Whether some rows have the node at the depth. -/
def allEqual (parentMatrix : Matrix N) (depth : Nat) (commonAncestor : N) : Nat → Nat → Option Bool
  | 0, _ => some true
  | rows + 1, i => do
    let row ← parentMatrix[i]?
    let parent ← parentWithDepth depth row
    if commonAncestor ≠ parent then some false
    else allEqual parentMatrix depth commonAncestor rows (i + 1)

/-- The loop that finds the common ancestor, from a depth upwards. -/
def findCommonAncestor (parentMatrix : Matrix N) (start stop : Nat) : Nat → Option (Nat × N)
  | 0 => do
    let row ← parentMatrix[start]?
    let commonAncestor ← parentWithDepth 0 row
    some (0, commonAncestor)
  | depth + 1 => do
    let row ← parentMatrix[start]?
    let commonAncestor ← parentWithDepth (depth + 1) row
    if ← allEqual parentMatrix (depth + 1) commonAncestor (stop - (start + 1)) (start + 1) then
      some (depth + 1, commonAncestor)
    else findCommonAncestor parentMatrix start stop depth

/-- The row of a node, among some rows. -/
def findRow (parentMatrix : Matrix N) (n : N) : Nat → Nat → Option (Option Nat)
  | 0, _ => some none
  | rows + 1, i => do
    let row ← parentMatrix[i]?
    let first ← row[0]?
    if n = first then some (some i) else findRow parentMatrix n rows (i + 1)

/-- The nodes of a depth in some rows, which the source puts in a hash set. -/
def nodesWithDepth (parentMatrix : Matrix N) (depth : Nat) : Nat → Nat → Option (List N)
  | 0, _ => some []
  | rows + 1, i => do
    let row ← parentMatrix[i]?
    let n ← parentWithDepth depth row
    (n :: ·) <$> nodesWithDepth parentMatrix depth rows (i + 1)

/-- The loop over the children of the common ancestor, in some steps. -/
def sortGroups (nextSibling : N → Option N) (parentNodes : List N) (depth stop : Nat)
    (sortGroup : Nat → Nat → Matrix N → Option (Matrix N)) :
    Nat → Option N → Nat → Matrix N → Option (Matrix N)
  | _, none, _, parentMatrix => some parentMatrix
  | 0, some _, _, _ => none
  | steps + 1, some n, previousGroupEnd, parentMatrix =>
    if n ∈ parentNodes then do
      let (groupEnd, parentMatrix) ← gather (fun row => (· = n) <$> parentWithDepth depth row)
        (stop - previousGroupEnd) previousGroupEnd previousGroupEnd parentMatrix
      let parentMatrix ← if groupEnd - previousGroupEnd > 1 then
          sortGroup previousGroupEnd groupEnd parentMatrix
        else some parentMatrix
      sortGroups nextSibling parentNodes depth stop sortGroup steps (nextSibling n) groupEnd
        parentMatrix
    else
      sortGroups nextSibling parentNodes depth stop sortGroup steps (nextSibling n) previousGroupEnd
        parentMatrix

variable [Fintype N] (tree : AttributedNodes N)

/-- `sortBlock` of the rows from `start` to `stop`, within some levels of recursion. -/
def sortBlock (mayContainAttributeNodes : Bool) : Nat → Nat → Nat → Matrix N → Option (Matrix N)
  | 0, _, _, _ => none
  | levels + 1, start, stop, parentMatrix => do
    let minDepth ← findMinDepth parentMatrix (stop - start) start (2 ^ 32 - 1)
    let (commonAncestorDepth, commonAncestor) ←
      findCommonAncestor parentMatrix start stop minDepth
    let first ←
      if commonAncestorDepth = minDepth then
        findRow parentMatrix commonAncestor (stop - start) start
      else some none
    match first with
    | some i =>
      let parentMatrix ← swapAt parentMatrix i start
      if start + 2 < stop then
        sortBlock mayContainAttributeNodes levels (start + 1) stop parentMatrix
      else some parentMatrix
    | none =>
      let (sortedEnd, parentMatrix) ←
        if mayContainAttributeNodes ∧ tree.isElementNode commonAncestor then
          gather (fun row => do
              let n ← row[0]?
              some (tree.isAttributeNode n ∧ tree.ownerElement n = some commonAncestor))
            (stop - start) start start parentMatrix
        else some (start, parentMatrix)
      if sortedEnd ≠ start then
        if stop - sortedEnd > 1 then
          sortBlock mayContainAttributeNodes levels sortedEnd stop parentMatrix
        else some parentMatrix
      else
        let parentNodes ←
          nodesWithDepth parentMatrix (commonAncestorDepth + 1) (stop - start) start
        sortGroups tree.nodes.nextSibling parentNodes (commonAncestorDepth + 1) stop
          (sortBlock mayContainAttributeNodes levels) (Fintype.card N)
          (tree.nodes.firstChild commonAncestor) start parentMatrix

structure NodeSet (N : Type) where
  nodes : List N
  isSorted : Bool

def NodeSet.sort (set : NodeSet N) : Option (NodeSet N) :=
  if set.isSorted then some set
  else if set.nodes.length < 2 then some { set with isSorted := true }
  else do
    let containsAttributeNodes := set.nodes.any tree.isAttributeNode
    let parentMatrix ← set.nodes.mapM tree.parentsVector
    let parentMatrix ← sortBlock tree containsAttributeNodes set.nodes.length 0 set.nodes.length
      parentMatrix
    let sortedNodes ← parentMatrix.mapM (·[0]?)
    some { set with nodes := sortedNodes }

end

end WkcBrowser.XPath
