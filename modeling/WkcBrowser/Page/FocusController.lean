import Mathlib.Algebra.Group.Int.Defs
import WkcBrowser.Dom.NodeTraversal
import WkcBrowser.Page.SpatialNavigation

/-! The search of `FocusController` for the next focusable node in a direction, through the documents of a
page, and the functions of `SpatialNavigation` that it asks about nodes. -/

namespace WkcBrowser.Page

open Graphics Dom OrderedTree

/-- A document is known by the position of its owner element in the document around it, by that document's
owner, and so on. -/
abbrev DocumentId := List Position

structure NodeId where
  document : DocumentId
  position : Position
deriving DecidableEq

structure RenderObject where
  isBox : Bool
  isTextArea : Bool
  /-- That of a box. -/
  canBeScrolledAndHasScrollableArea : Bool
  absoluteClippedOverflowRect : IntRect

structure NodeData where
  isElementNode : Bool
  isFocusable : Bool
  isFrameOwnerElement : Bool
  hasContentFrame : Bool
  /-- The node's renderer, if it has one, and the renderers above it. -/
  renderers : List RenderObject
  getRect : IntRect
  /-- The offsets of an element and of its offset parents, added up. -/
  offset : IntPoint
  /-- Only elements have a tab index. -/
  element_of_focusable : isFocusable = true → isElementNode = true

structure FrameView where
  scrollOffset : IntPoint
  visibleContentRect : IntRect
  /-- The place of the view in the window. -/
  location : IntPoint

structure Document where
  tree : Tree
  data : Position → NodeData
  view : Option FrameView

/-- The documents of a page, with a bound on how deep frames are nested. -/
structure Documents where
  document : DocumentId → Document
  depth : Nat
  frameless : ∀ id, depth ≤ id.length → ∀ p, ((document id).data p).hasContentFrame = false

def maxDistance : Int := 2 ^ 63 - 1

def fudgeFactor : Int := 2

structure FocusCandidate where
  node : Option NodeId := none
  enclosingScrollableBox : Option NodeId := none
  distance : Int := maxDistance
  parentDistance : Int := maxDistance
  alignment : RectsAlignment := .none
  parentAlignment : RectsAlignment := .none
deriving DecidableEq

def FocusCandidate.inScrollableContainer (candidate : FocusCandidate) : Bool :=
  candidate.node.isSome && candidate.enclosingScrollableBox.isSome

/-- Boxes that overlap are made smaller, unless one of them contains the other. -/
def deflateIfOverlapped (a b : IntRect) : IntRect × IntRect :=
  if !a.intersects b || a.contains b || b.contains a then (a, b)
  else
    let deflateFactor := -fudgeFactor
    let deflated (rect : IntRect) : IntRect :=
      if rect.width + 2 * deflateFactor > 0 ∧ rect.height + 2 * deflateFactor > 0 then
        rect.inflate deflateFactor
      else rect
    (deflated a, deflated b)

namespace Documents

variable (page : Documents)

def data (node : NodeId) : NodeData := (page.document node.document).data node.position

def renderer (node : NodeId) : Option RenderObject := (page.data node).renderers.head?

/-- The owner of a document that is not the root document. -/
def ownerElement : DocumentId → Option NodeId
  | [] => none
  | position :: document => some ⟨document, position⟩

def hasOffscreenRect (node : NodeId) : Bool :=
  match (page.document node.document).view with
  | none => true
  | some frameView =>
    match page.renderer node with
    | none => true
    | some render =>
      let rect := render.absoluteClippedOverflowRect
      if rect.isEmpty then true else !frameView.visibleContentRect.intersects rect

def contentsToWindow (frameView : FrameView) (rect : IntRect) : IntRect :=
  (rect.move (-frameView.scrollOffset.x) (-frameView.scrollOffset.y)).move frameView.location.x
    frameView.location.y

def isNodeInSpecificRect (node : NodeId) (specificRect : Option IntRect) : Bool :=
  match specificRect.filter (!·.isEmpty) with
  | none => !page.hasOffscreenRect node
  | some specificRect =>
    match (page.document node.document).view with
    | none => false
    | some frameView =>
      match page.renderer node with
      | none => false
      | some render =>
        let rect := render.absoluteClippedOverflowRect
        if rect.isEmpty then false else specificRect.intersects (contentsToWindow frameView rect)

def isInRootDocument (node : NodeId) : Bool := node.document = []

/-- The document node is never a scrollable container. -/
def isScrollableContainerNode (node : NodeId) : Bool :=
  match page.renderer node with
  | none => false
  | some renderer =>
    renderer.isBox && renderer.canBeScrolledAndHasScrollableArea &&
      0 < (page.document node.document).tree.childCount node.position && node.position ≠ []

/-- The node is a scrollable container and not a text area. -/
def isScrollableBlock (node : NodeId) : Bool :=
  page.isScrollableContainerNode node && !(page.renderer node).any (·.isTextArea)

/-- A document and the documents around it. -/
def isNodeDeepDescendantOfDocument (node : NodeId) (baseDocument : DocumentId) : Bool :=
  baseDocument ∈ node.document.tails

def isDescendantOf (node : NodeId) (other : Option NodeId) : Bool :=
  match other with
  | none => false
  | some other => node.document = other.document ∧ other.position ∈ node.position.tail.tails ∧
      node.position ≠ []

/-- The offsets of the frame owners around a document. -/
def moveToRoot (rect : IntRect) : DocumentId → IntRect
  | [] => rect
  | position :: document =>
    let offset := ((page.document document).data position).offset
    moveToRoot (rect.move offset.x offset.y) document

def renderRectRelativeToRootDocument (node : NodeId) : IntRect :=
  let rect := (page.data node).getRect
  let considerScrollOffset := !(page.hasOffscreenRect node && node.document ≠ [])
  let rect := match (page.document node.document).view with
    | none => rect
    | some frameView =>
      if considerScrollOffset then rect.move (-frameView.scrollOffset.x) (-frameView.scrollOffset.y)
      else rect
  page.moveToRoot rect node.document

def checkNegativeCoordsForNode (node : NodeId) (curRect : IntRect) : Bool :=
  if curRect.x ≥ 0 && curRect.y ≥ 0 then true
  else (page.data node).renderers.any fun renderer =>
    renderer.isBox && renderer.canBeScrolledAndHasScrollableArea

/-- `node` is the candidate's node. -/
def distanceDataForNode (direction : FocusDirection) (start node : NodeId) (candidate : FocusCandidate) :
    FocusCandidate :=
  match page.renderer start, page.renderer node with
  | some _, some _ =>
    let (curRect, targetRect) := deflateIfOverlapped (page.renderRectRelativeToRootDocument start)
      (page.renderRectRelativeToRootDocument node)
    if curRect.isEmpty || targetRect.isEmpty || targetRect.width ≤ 0 || targetRect.height ≤ 0 then
      { candidate with distance := maxDistance }
    else if !page.checkNegativeCoordsForNode start curRect then
      { candidate with distance := maxDistance }
    else if !page.checkNegativeCoordsForNode node targetRect then
      { candidate with distance := maxDistance }
    else if !isRectInDirection direction curRect targetRect then
      { candidate with distance := maxDistance }
    else
      { candidate with
        alignment := alignmentForRects direction curRect targetRect
        distance := spatialDistance direction curRect targetRect }
  | _, _ => { candidate with distance := maxDistance }

def updateFocusCandidateInSameContainer (candidate closest : FocusCandidate) : FocusCandidate :=
  if closest.node.isNone then candidate
  else if candidate.alignment = closest.alignment then
    if candidate.distance < closest.distance then candidate else closest
  else if candidate.alignment.rank > closest.alignment.rank then candidate
  else closest

def updateFocusCandidateIfCloser (focusedNode : NodeId) (candidate closest : FocusCandidate) :
    FocusCandidate :=
  if !candidate.inScrollableContainer && !closest.inScrollableContainer then
    updateFocusCandidateInSameContainer candidate closest
  else
    let sameContainer := candidate.node.map (·.document) = closest.node.map (·.document) ∧
      candidate.enclosingScrollableBox = closest.enclosingScrollableBox
    if sameContainer then updateFocusCandidateInSameContainer candidate closest
    else
      let isInInnerDocument := !isInRootDocument focusedNode
      let sameContainerAs (other : FocusCandidate) : Bool :=
        if isInInnerDocument then some focusedNode.document = other.node.map (·.document)
        else isDescendantOf focusedNode other.enclosingScrollableBox
      if sameContainerAs candidate then candidate
      else if sameContainerAs closest then closest
      else if candidate.distance < closest.distance then
        if candidate.alignment.rank ≥ closest.parentAlignment.rank ∨
            candidate.parentAlignment = closest.parentAlignment then candidate
        else closest
      else if candidate.parentDistance < closest.distance ∧
          candidate.parentAlignment.rank ≥ closest.alignment.rank then candidate
      else closest

/-- Why a search has no result: it needs more steps, or it takes an element to be a document. -/
inductive Failure where
  | steps
  | notDocument
deriving DecidableEq

/-- The closest candidate so far, with all candidates that were compared with the closest one or too far
away. -/
structure Search where
  closest : FocusCandidate := {}
  considered : List FocusCandidate := []
deriving DecidableEq

/-- The box that a candidate is in, for a walk that starts at `outer` with no parent candidate. -/
def enclosingBox (outer : NodeId) : Except Failure (Option NodeId) :=
  if !isInRootDocument outer then
    if outer.position.length = 1 then .ok (ownerElement outer.document) else .error .notDocument
  else
    let parent : NodeId := ⟨outer.document, outer.position.tail⟩
    if page.isScrollableContainerNode parent then .ok parent else .ok none

/-- The candidate for a node, with its distance. -/
def makeCandidate (outer focusedNode : NodeId) (direction : FocusDirection)
    (candidateParent : FocusCandidate) (node : NodeId) : Except Failure FocusCandidate := do
  let candidate : FocusCandidate := { node := node }
  let candidate ←
    if candidateParent.node.isSome then
      .ok { candidate with
        parentAlignment := candidateParent.alignment
        parentDistance := candidateParent.distance
        enclosingScrollableBox := candidateParent.node }
    else do
      let box ← page.enclosingBox outer
      .ok { candidate with enclosingScrollableBox := box }
  .ok (page.distanceDataForNode direction focusedNode node candidate)

def isCandidate (focusedNode node : NodeId) (specificRect : Option IntRect) : Bool :=
  node ≠ focusedNode && (page.data node).isFocusable && page.isNodeInSpecificRect node specificRect

/-- A node that is neither a frame owner nor a scrollable container. -/
def consider (outer focusedNode : NodeId) (direction : FocusDirection) (candidateParent : FocusCandidate)
    (specificRect : Option IntRect) (node : NodeId) (search : Search) : Except Failure Search :=
  if page.isCandidate focusedNode node specificRect then do
    let candidate ← page.makeCandidate outer focusedNode direction candidateParent node
    let considered := search.considered ++ [candidate]
    if candidate.distance = maxDistance then .ok { search with considered := considered }
    else .ok ⟨updateFocusCandidateIfCloser focusedNode candidate search.closest, considered⟩
  else .ok search

/-- The traversal functions of nodes, for a node's document. -/
def inDocument (node : NodeId) (to_ : Option Position) : Option NodeId := to_.map (⟨node.document, ·⟩)

def traverseNextNode (node : NodeId) (stayWithin : Option Position) : Option NodeId :=
  inDocument node (Dom.traverseNextNode (page.document node.document).tree stayWithin node.position)

def traverseNextSibling (node : NodeId) (stayWithin : Option Position) : Option NodeId :=
  inDocument node (Dom.traverseNextSibling (page.document node.document).tree stayWithin node.position)

def traversePreviousNodePostOrder (node : NodeId) : Option NodeId :=
  inDocument node (Dom.traversePreviousNodePostOrder (page.document node.document).tree none node.position)

def firstChild (node : NodeId) : Option NodeId :=
  inDocument node (Dom.firstChild (page.document node.document).tree node.position)

def lastChild (node : NodeId) : Option NodeId :=
  inDocument node (Dom.lastChild (page.document node.document).tree node.position)

/-- The document in the frame of an owner element. -/
def innerDocument (owner : NodeId) : NodeId := ⟨owner.position :: owner.document, []⟩

mutual

/-- The loop, with the number of steps that are left. -/
def findFocusableNodeInDirection (focusedNode : NodeId) (direction : FocusDirection)
    (specificRect : Option IntRect) :
    Nat → NodeId → FocusCandidate → Option NodeId → Search → Except Failure Search
  | _, _, _, none, search => .ok search
  | 0, _, _, some _, _ => .error .steps
  | steps + 1, outer, candidateParent, some node, search => do
    if (page.data node).isFrameOwnerElement then
      let search ← deepFindFocusableNodeInDirection focusedNode direction specificRect steps node search
      findFocusableNodeInDirection focusedNode direction specificRect steps outer candidateParent
        (page.traverseNextNode node outer.position.tail) search
    else if page.isScrollableBlock node then
      let search ← deepFindFocusableNodeInDirection focusedNode direction specificRect steps node search
      findFocusableNodeInDirection focusedNode direction specificRect steps outer candidateParent
        (page.traverseNextSibling node none) search
    else
      let search ← page.consider outer focusedNode direction candidateParent specificRect node search
      findFocusableNodeInDirection focusedNode direction specificRect steps outer candidateParent
        (page.traverseNextNode node outer.position.tail) search

def deepFindFocusableNodeInDirection (focusedNode : NodeId) (direction : FocusDirection)
    (specificRect : Option IntRect) : Nat → NodeId → Search → Except Failure Search
  | 0, _, _ => .error .steps
  | steps + 1, container, search =>
    let isOwner := (page.data container).isFrameOwnerElement
    if isOwner && !(page.data container).hasContentFrame then .ok search
    else
      let around := if isOwner then innerDocument container else container
      let descendantOfContainer :=
        if isOwner then isNodeDeepDescendantOfDocument focusedNode around.document
        else isDescendantOf focusedNode container
      -- Without a first child there is nothing to walk through.
      match page.firstChild around with
      | none => .ok search
      | some firstChild =>
        if descendantOfContainer then
          findFocusableNodeInDirection focusedNode direction specificRect steps firstChild {}
            (some firstChild) search
        else
          let candidateParent :=
            page.distanceDataForNode direction focusedNode container { node := container }
          if candidateParent.distance = maxDistance then .ok search
          else if candidateParent.distance < search.closest.distance then
            findFocusableNodeInDirection focusedNode direction specificRect steps firstChild candidateParent
              (some firstChild) search
          else .ok search

end

mutual

/-- `findFirstFocusableNode` and `findLastFocusableNode` differ in the child they go down to and in the
node they go on with. -/
def findFocusableNode (child next : NodeId → Option NodeId) (specificRect : Option IntRect) :
    Nat → Option NodeId → Except Failure (Option NodeId)
  | _, none => .ok none
  | 0, some _ => .error .steps
  | steps + 1, some node => do
    if !page.isNodeInSpecificRect node specificRect then
      findFocusableNode child next specificRect steps (next node)
    else if (page.data node).isFrameOwnerElement then
      let found ← findInFrame child next specificRect steps node
      match found with
      | some found => .ok (if (page.data found).isFocusable then some found else none)
      | none => findFocusableNode child next specificRect steps (next node)
    else
      match if page.isScrollableBlock node then child node else some node with
      | none => .ok none
      | some node =>
        if (page.data node).isFocusable && !(page.data node).isFrameOwnerElement then .ok (some node)
        else findFocusableNode child next specificRect steps (next node)

/-- The frame of an owner element is searched, if there is one. -/
def findInFrame (child next : NodeId → Option NodeId) (specificRect : Option IntRect) :
    Nat → NodeId → Except Failure (Option NodeId)
  | 0, _ => .error .steps
  | steps + 1, owner =>
    if (page.data owner).hasContentFrame then
      findFocusableNode child next specificRect steps (child (innerDocument owner))
    else .ok none

end

def mainDocument : NodeId := ⟨[], []⟩

def findFirstFocusableNode (specificRect : Option IntRect) (steps : Nat) :
    Except Failure (Option NodeId) :=
  page.findFocusableNode page.firstChild (page.traverseNextNode · none) specificRect steps
    (page.firstChild mainDocument)

def findLastFocusableNode (specificRect : Option IntRect) (steps : Nat) :
    Except Failure (Option NodeId) :=
  page.findFocusableNode page.lastChild page.traversePreviousNodePostOrder specificRect steps
    (page.lastChild mainDocument)

/-- The search of `findNextFocusableNode` from a focused node. -/
def searchFrom (focusedNode : NodeId) (direction : FocusDirection) (specificRect : Option IntRect)
    (steps : Nat) : Except Failure Search :=
  match page.firstChild mainDocument with
  | none => .ok {}
  | some outer =>
    page.findFocusableNodeInDirection focusedNode direction specificRect steps outer {} (some outer) {}

/-- What is found is given up when it is not an element or not on the screen. -/
def chosen (focusCandidate : FocusCandidate) : Option NodeId :=
  focusCandidate.node.filter fun node => (page.data node).isElementNode && !page.hasOffscreenRect node

def findNextFocusableNode (focusedNode : Option NodeId) (direction : FocusDirection)
    (specificRect : Option IntRect) (steps : Nat) : Except Failure (Option NodeId) :=
  match focusedNode with
  | none =>
    if direction = .up then page.findLastFocusableNode specificRect steps
    else page.findFirstFocusableNode specificRect steps
  | some focusedNode => do
    let search ← page.searchFrom focusedNode direction specificRect steps
    .ok (page.chosen search.closest)

end Documents

end WkcBrowser.Page
