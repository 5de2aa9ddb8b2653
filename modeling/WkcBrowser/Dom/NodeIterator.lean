import WkcBrowser.Dom.DocumentOrder
import WkcBrowser.Lib.Along
import WkcBrowser.Lib.Cursor

/-! WebCore's `NodeIterator`: its walk over the nodes below a root and what it does when a node is about
to be removed. -/

namespace WkcBrowser.Dom

open Lib

/-- The numbers of the DOM. -/
def NodeType.number : NodeType → Nat
  | .element => 1
  | .attribute => 2
  | .text => 3
  | .cdataSection => 4
  | .entityReference => 5
  | .entity => 6
  | .processingInstruction => 7
  | .comment => 8
  | .document => 9
  | .documentType => 10
  | .documentFragment => 11
  | .notation_ => 12
  | .xpathNamespace => 13

namespace NodeFilter

def filterAccept : Int := 1

def filterSkip : Int := 3

end NodeFilter

structure NodePointer (N : Type) where
  node : Option N := none
  isPointerBeforeNode : Bool := false

structure NodeIterator (N : Type) where
  root : N
  whatToShow : BitVec 32
  /-- What a filter without effects answers about a node. -/
  filter : Option (Nodes N → N → Int)
  referenceNode : NodePointer N
  candidateNode : NodePointer N := {}
  detached : Bool := false

inductive IteratorException where
  | invalidStateErr
deriving DecidableEq

section
variable {N : Type} [Fintype N] [DecidableEq N]

namespace NodePointer

def clear (pointer : NodePointer N) : NodePointer N := { pointer with node := none }

/-- Whether there is a node is also in the node. -/
def moveToNext (nodes : Nodes N) (root : N) (pointer : NodePointer N) : NodePointer N :=
  match pointer.node with
  | none => pointer
  | some n =>
    if pointer.isPointerBeforeNode then { pointer with isPointerBeforeNode := false }
    else { pointer with node := nodes.traverseNextNode (some root) n }

def moveToPrevious (nodes : Nodes N) (root : N) (pointer : NodePointer N) : NodePointer N :=
  match pointer.node with
  | none => pointer
  | some n =>
    if pointer.isPointerBeforeNode then
      { pointer with node := nodes.traversePreviousNode (some root) n }
    else { pointer with isPointerBeforeNode := true }

/-- The loop of `nextNode` and `previousNode`, in some steps. -/
def search (accepts : N → Bool) (move : NodePointer N → NodePointer N) :
    Nat → NodePointer N → NodePointer N
  | 0, candidate => candidate.clear
  | steps + 1, candidate =>
    match (move candidate).node with
    | none => move candidate
    | some n => if accepts n then move candidate else search accepts move steps (move candidate)

end NodePointer

/-- The loops of `updateForNodeRemoval` out of the subtree that is removed, in some steps. -/
def leaveSubtree (nodes : Nodes N) (removedNode : N) (traverse : N → Option N) :
    Nat → Option N → Option N
  | 0, node => node
  | _, none => none
  | steps + 1, some node =>
    if nodes.isDescendantOf node removedNode then
      leaveSubtree nodes removedNode traverse steps (traverse node)
    else some node

namespace NodeIterator

def create (root : N) (whatToShow : BitVec 32) (filter : Option (Nodes N → N → Int)) :
    NodeIterator N :=
  { root, whatToShow, filter, referenceNode := ⟨some root, true⟩ }

variable (iterator : NodeIterator N) (nodes : Nodes N)

def acceptNode (node : N) : Int :=
  if !iterator.whatToShow.getLsbD ((nodes.nodeType node).number - 1) then NodeFilter.filterSkip
  else
    match iterator.filter with
    | none => NodeFilter.filterAccept
    | some filter => filter nodes node

def accepts (node : N) : Bool := iterator.acceptNode nodes node = NodeFilter.filterAccept

/-- What `nextNode` and `previousNode` share. -/
def moveReference (move : NodePointer N → NodePointer N) :
    Except IteratorException (Option N) × NodeIterator N :=
  if iterator.detached then (.error .invalidStateErr, iterator)
  else
    let candidate := NodePointer.search (iterator.accepts nodes) move (Fintype.card N + 1)
      iterator.referenceNode
    match candidate.node with
    | none => (.ok none, { iterator with candidateNode := candidate.clear })
    | some node =>
      (.ok (some node),
        { iterator with referenceNode := candidate, candidateNode := candidate.clear })

def nextNode : Except IteratorException (Option N) × NodeIterator N :=
  iterator.moveReference nodes (NodePointer.moveToNext nodes iterator.root)

def previousNode : Except IteratorException (Option N) × NodeIterator N :=
  iterator.moveReference nodes (NodePointer.moveToPrevious nodes iterator.root)

def updateForNodeRemoval (removedNode : N) (referenceNode : NodePointer N) : NodePointer N :=
  let next := nodes.traverseNextNode (some iterator.root)
  let previous := nodes.traversePreviousNode (some iterator.root)
  if !nodes.isDescendantOf removedNode iterator.root then referenceNode
  else
    let willRemoveReferenceNode : Bool := referenceNode.node = some removedNode
    let willRemoveReferenceNodeAncestor := referenceNode.node.any (nodes.isDescendantOf · removedNode)
    let moveOut := fun traverse node =>
      if willRemoveReferenceNodeAncestor then
        leaveSubtree nodes removedNode traverse (Fintype.card N) node
      else node
    if !willRemoveReferenceNode && !willRemoveReferenceNodeAncestor then referenceNode
    else if referenceNode.isPointerBeforeNode then
      match next removedNode with
      | some node =>
        match moveOut next (some node) with
        | some node => { referenceNode with node := some node }
        | none => referenceNode
      | none =>
        match previous removedNode with
        | none => referenceNode
        | some node =>
          match moveOut previous (some node) with
          | some node => ⟨some node, false⟩
          | none => referenceNode
    else
      match previous removedNode with
      | some node =>
        match moveOut previous (some node) with
        | some node => { referenceNode with node := some node }
        | none => referenceNode
      | none =>
        match moveOut previous (next removedNode) with
        | some node => { referenceNode with node := some node }
        | none => referenceNode

def nodeWillBeRemoved (removedNode : N) : NodeIterator N :=
  { iterator with
    candidateNode := iterator.updateForNodeRemoval nodes removedNode iterator.candidateNode
    referenceNode := iterator.updateForNodeRemoval nodes removedNode iterator.referenceNode }

end NodeIterator

/-- An iterator and the nodes it walks over. -/
structure Iteration (N : Type) where
  nodes : Nodes N
  iterator : NodeIterator N

inductive IterationEvent (N : Type) where
  | nextNode
  | previousNode
  /-- A node is taken away from its parent, if it has one. -/
  | remove (child : N)

namespace Iteration

variable (s : Iteration N)

def step : IterationEvent N → Iteration N
  | .nextNode => { s with iterator := (s.iterator.nextNode s.nodes).2 }
  | .previousNode => { s with iterator := (s.iterator.previousNode s.nodes).2 }
  | .remove child =>
    match s.nodes.parentNode child with
    | none => s
    | some parent =>
      { nodes := s.nodes.unlink parent child
        iterator := s.iterator.nodeWillBeRemoved s.nodes child }

def returned : IterationEvent N → Except IteratorException (Option N)
  | .nextNode => (s.iterator.nextNode s.nodes).1
  | .previousNode => (s.iterator.previousNode s.nodes).1
  | .remove _ => .ok none

/-- What should be returned, and where the place between the nodes should go. -/
def expected (cursor : Cursor N) : IterationEvent N → Option N × Cursor N
  | .nextNode => cursor.next (s.iterator.accepts s.nodes)
  | .previousNode => cursor.previous (s.iterator.accepts s.nodes)
  | .remove child =>
    (none,
      if s.nodes.isDescendantOf child s.iterator.root then
        cursor.remove (s.nodes.inSubtree child ·)
      else cursor)

end Iteration

/-- The pointer is at the place. -/
def NodePointer.Between (pointer : NodePointer N) (cursor : Cursor N) : Prop :=
  ∃ node, pointer.node = some node ∧
    (if pointer.isPointerBeforeNode then cursor.ahead.head? else cursor.behind.head?) = some node

/-- The place is in the order of the remaining nodes, and the reference node is next to it. -/
structure Iteration.At (s : Iteration N) (cursor : Cursor N) : Prop where
  attached : s.iterator.detached = false
  order : s.nodes.inOrder s.iterator.root = cursor.whole
  between : s.iterator.referenceNode.Between cursor

variable {nodes : Nodes N} {contents : N → List N} {root : N} {cursor : Cursor N}
  {pointer : NodePointer N}

/-! One move of a pointer. -/

theorem moveToNext_spec (lists : nodes.Lists contents) (acyclic : nodes.Acyclic)
    (order : nodes.inOrder root = cursor.whole) (between : pointer.Between cursor) :
    (pointer.moveToNext nodes root).node = cursor.ahead.head? ∧
      ∀ a ahead, cursor.ahead = a :: ahead →
        (pointer.moveToNext nodes root).Between ⟨a :: cursor.behind, ahead⟩ := by
  obtain ⟨behind, ahead⟩ := cursor
  obtain ⟨node, isPointerBeforeNode⟩ := pointer
  obtain ⟨n, rfl, near⟩ := between
  cases isPointerBeforeNode with
  | true =>
    have first : ahead.head? = some n := near
    refine ⟨first.symm, fun a rest split => ⟨n, rfl, ?_⟩⟩
    obtain rfl : ahead = a :: rest := split
    exact first
  | false =>
    obtain ⟨earlier, rfl⟩ := List.head?_eq_some_iff.mp near
    have split : nodes.inOrder root = earlier.reverse ++ n :: ahead := by
      rw [order, Cursor.whole, List.reverse_cons, List.append_assoc]
      rfl
    have next : (NodePointer.moveToNext nodes root ⟨some n, false⟩).node = ahead.head? :=
      (lists.traverse_split acyclic split).1
    refine ⟨next, fun a rest same => ⟨a, ?_, rfl⟩⟩
    obtain rfl : ahead = a :: rest := same
    exact next

theorem moveToPrevious_spec (lists : nodes.Lists contents) (acyclic : nodes.Acyclic)
    (order : nodes.inOrder root = cursor.whole) (between : pointer.Between cursor) :
    (pointer.moveToPrevious nodes root).node = cursor.behind.head? ∧
      ∀ a behind, cursor.behind = a :: behind →
        (pointer.moveToPrevious nodes root).Between ⟨behind, a :: cursor.ahead⟩ := by
  obtain ⟨behind, ahead⟩ := cursor
  obtain ⟨node, isPointerBeforeNode⟩ := pointer
  obtain ⟨n, rfl, near⟩ := between
  cases isPointerBeforeNode with
  | true =>
    obtain ⟨later, rfl⟩ := List.head?_eq_some_iff.mp near
    have previous : (NodePointer.moveToPrevious nodes root ⟨some n, true⟩).node = behind.head? := by
      rw [← List.getLast?_reverse]
      exact (lists.traverse_split acyclic order).2
    refine ⟨previous, fun a rest same => ⟨a, ?_, rfl⟩⟩
    obtain rfl : behind = a :: rest := same
    exact previous
  | false =>
    have last : behind.head? = some n := near
    refine ⟨last.symm, fun a rest split => ⟨n, rfl, ?_⟩⟩
    obtain rfl : behind = a :: rest := split
    exact last

omit [Fintype N] [DecidableEq N] in
/-- The loop finds the first accepted element when each move goes over the next one. -/
theorem search_spec {accepts : N → Bool} {move : NodePointer N → NodePointer N}
    (near : NodePointer N → Cursor N → Prop) {order : List N}
    (moves : ∀ pointer cursor, cursor.whole = order → near pointer cursor →
      (move pointer).node = cursor.ahead.head? ∧ ∀ a ahead, cursor.ahead = a :: ahead →
        near (move pointer) ⟨a :: cursor.behind, ahead⟩)
    (ahead behind : List N) (whole : (⟨behind, ahead⟩ : Cursor N).whole = order)
    (start : near pointer ⟨behind, ahead⟩) {steps : Nat} (enough : ahead.length < steps) :
    (NodePointer.search accepts move steps pointer).node =
        ((⟨behind, ahead⟩ : Cursor N).next accepts).1 ∧
      ∀ a, ((⟨behind, ahead⟩ : Cursor N).next accepts).1 = some a →
        near (NodePointer.search accepts move steps pointer)
          ((⟨behind, ahead⟩ : Cursor N).next accepts).2 := by
  induction ahead generalizing behind pointer steps with
  | nil =>
    obtain ⟨steps, rfl⟩ : ∃ more, steps = more + 1 := ⟨steps - 1, by omega⟩
    have ended : (move pointer).node = none := (moves pointer _ whole start).1
    rw [Cursor.next_nil, NodePointer.search, ended]
    exact ⟨ended, fun a found => by cases found⟩
  | cons b ahead ih =>
    obtain ⟨steps, rfl⟩ : ∃ more, steps = more + 1 := ⟨steps - 1, by omega⟩
    obtain ⟨found, moved⟩ := moves pointer _ whole start
    have there := moved b ahead rfl
    rw [List.head?_cons] at found
    rw [NodePointer.search, found]
    dsimp only
    cases accepted : accepts b with
    | true =>
      rw [if_pos rfl, Cursor.next_accepted accepted]
      exact ⟨found, fun _ _ => there⟩
    | false =>
      have whole' : (⟨b :: behind, ahead⟩ : Cursor N).whole = order := by
        rw [← whole, Cursor.whole, Cursor.whole, List.reverse_cons, List.append_assoc]
        rfl
      have later := ih (b :: behind) whole' there (Nat.lt_of_succ_lt_succ enough)
      rw [if_neg Bool.false_ne_true, Cursor.next_refused accepted]
      generalize (⟨b :: behind, ahead⟩ : Cursor N).next accepts = result at later
      obtain ⟨_ | a, place⟩ := result
      · exact ⟨later.1, fun a none => by cases none⟩
      · exact later

variable {s : Iteration N}

omit [DecidableEq N] in
/-- What the search finds becomes the reference node, and without it nothing changes. -/
theorem moveReference_spec {iterator : NodeIterator N} (attached : iterator.detached = false)
    {move : NodePointer N → NodePointer N} {result : Option N}
    (found : (NodePointer.search (iterator.accepts nodes) move (Fintype.card N + 1)
      iterator.referenceNode).node = result) :
    (iterator.moveReference nodes move).1 = .ok result ∧
      (iterator.moveReference nodes move).2.root = iterator.root ∧
      (iterator.moveReference nodes move).2.detached = false ∧
      (iterator.moveReference nodes move).2.referenceNode =
        if result = none then iterator.referenceNode
        else NodePointer.search (iterator.accepts nodes) move (Fintype.card N + 1)
          iterator.referenceNode := by
  rw [NodeIterator.moveReference, if_neg (by simp [attached])]
  dsimp only
  rw [found]
  cases result with
  | none => exact ⟨rfl, rfl, attached, rfl⟩
  | some node => exact ⟨rfl, rfl, attached, rfl⟩

theorem whole_length_lt (lists : s.nodes.Lists contents) (acyclic : s.nodes.Acyclic)
    (here : s.At cursor) : cursor.whole.length < Fintype.card N + 1 := by
  rw [← here.order]
  have nodup := (lists.inOrder_spec acyclic s.iterator.root).nodup_root (lists.branching acyclic)
  exact Nat.lt_succ_of_le nodup.length_le_card

theorem at_nextNode (lists : s.nodes.Lists contents) (acyclic : s.nodes.Acyclic)
    (here : s.At cursor) :
    s.returned .nextNode = .ok (s.expected cursor .nextNode).1 ∧
      (s.step .nextNode).At (s.expected cursor .nextNode).2 := by
  have bound : cursor.ahead.length < Fintype.card N + 1 := by
    have all := whole_length_lt lists acyclic here
    rw [Cursor.whole, List.length_append] at all
    omega
  obtain ⟨found, there⟩ := search_spec NodePointer.Between
    (fun pointer cursor order => moveToNext_spec lists acyclic order.symm)
    cursor.ahead cursor.behind here.order.symm here.between bound
  obtain ⟨returned, root, attached, reference⟩ := moveReference_spec here.attached found
  refine ⟨returned, attached, ?_, ?_⟩
  · change s.nodes.inOrder (s.iterator.nextNode s.nodes).2.root = _
    rw [NodeIterator.nextNode, root, here.order]
    exact Cursor.whole_next.symm
  · change NodePointer.Between (s.iterator.nextNode s.nodes).2.referenceNode _
    rw [NodeIterator.nextNode, reference]
    change NodePointer.Between _ (cursor.next (s.iterator.accepts s.nodes)).2
    cases result : (cursor.next (s.iterator.accepts s.nodes)).1 with
    | none =>
      rw [if_pos rfl, Cursor.next_of_none result]
      exact here.between
    | some node =>
      rw [if_neg (Option.some_ne_none node)]
      exact there node result

theorem at_previousNode (lists : s.nodes.Lists contents) (acyclic : s.nodes.Acyclic)
    (here : s.At cursor) :
    s.returned .previousNode = .ok (s.expected cursor .previousNode).1 ∧
      (s.step .previousNode).At (s.expected cursor .previousNode).2 := by
  have bound : cursor.behind.length < Fintype.card N + 1 := by
    have all := whole_length_lt lists acyclic here
    rw [Cursor.whole, List.length_append, List.length_reverse] at all
    omega
  have order : cursor.flip.whole = (s.nodes.inOrder s.iterator.root).reverse := by
    rw [Cursor.whole_flip, here.order]
  -- Seen from the other side, going back is going on.
  have moves : ∀ (pointer : NodePointer N) (place : Cursor N),
      place.whole = (s.nodes.inOrder s.iterator.root).reverse → pointer.Between place.flip →
      (pointer.moveToPrevious s.nodes s.iterator.root).node = place.ahead.head? ∧
        ∀ a ahead, place.ahead = a :: ahead →
          (pointer.moveToPrevious s.nodes s.iterator.root).Between
            (⟨a :: place.behind, ahead⟩ : Cursor N).flip := by
    intro pointer place order between
    refine moveToPrevious_spec lists acyclic ?_ between
    rw [Cursor.whole_flip, order, List.reverse_reverse]
  obtain ⟨found, there⟩ := search_spec (fun pointer place => pointer.Between place.flip) moves
    cursor.flip.ahead cursor.flip.behind order here.between bound
  obtain ⟨returned, root, attached, reference⟩ := moveReference_spec here.attached found
  refine ⟨returned, attached, ?_, ?_⟩
  · change s.nodes.inOrder (s.iterator.previousNode s.nodes).2.root = _
    rw [NodeIterator.previousNode, root, here.order]
    exact Cursor.whole_previous.symm
  · change NodePointer.Between (s.iterator.previousNode s.nodes).2.referenceNode _
    rw [NodeIterator.previousNode, reference]
    change NodePointer.Between _ (cursor.flip.next (s.iterator.accepts s.nodes)).2.flip
    cases result : (cursor.flip.next (s.iterator.accepts s.nodes)).1 with
    | none =>
      rw [if_pos rfl, Cursor.next_of_none result]
      exact here.between
    | some node =>
      rw [if_neg (Option.some_ne_none node)]
      exact there node result

end

end WkcBrowser.Dom
