import WkcBrowser.Lib.OrderedTree

/-! The traversal functions of `Node` of WebCore's `dom` directory, for the nodes of one document. The
document itself is the root. -/

namespace WkcBrowser.Dom

open OrderedTree

variable (tree : Tree)

def firstChild (p : Position) : Option Position := if 0 < tree.childCount p then some (0 :: p) else none

def lastChild (p : Position) : Option Position :=
  if 0 < tree.childCount p then some ((tree.childCount p - 1) :: p) else none

def nextSibling : Position → Option Position
  | [] => none
  | i :: p => if i + 1 < tree.childCount p then some ((i + 1) :: p) else none

def previousSibling : Position → Option Position
  | [] => none
  | 0 :: _ => none
  | (i + 1) :: p => some (i :: p)

/-- The loop that goes up to a node with a sibling, and on to that sibling. -/
def climb (sibling : Position → Option Position) (stayWithin : Option Position) :
    Position → Option Position
  | [] => none
  | i :: p =>
    if (sibling (i :: p)).isNone ∧ stayWithin ≠ some p then climb sibling stayWithin p
    else sibling (i :: p)

def traverseNextNode (stayWithin : Option Position) (p : Position) : Option Position :=
  match firstChild tree p with
  | some child => some child
  | none =>
    if stayWithin = some p then none
    else match nextSibling tree p with
      | some sibling => some sibling
      | none => climb (nextSibling tree) stayWithin p

def traverseNextSibling (stayWithin : Option Position) (p : Position) : Option Position :=
  if stayWithin = some p then none
  else match nextSibling tree p with
    | some sibling => some sibling
    | none => climb (nextSibling tree) stayWithin p

def traversePreviousNodePostOrder (stayWithin : Option Position) (p : Position) : Option Position :=
  match lastChild tree p with
  | some child => some child
  | none =>
    if stayWithin = some p then none
    else match previousSibling p with
      | some sibling => some sibling
      | none => climb previousSibling stayWithin p

section
variable {tree : Tree} {stayWithin : Option Position} {p : Position}

theorem climb_next (i : Nat) (p : Position) :
    climb (nextSibling tree) stayWithin (i :: p) =
      if i + 1 < tree.childCount p then some ((i + 1) :: p)
      else if stayWithin = some p then none
      else climb (nextSibling tree) stayWithin p := by
  rw [climb, nextSibling]
  by_cases more : i + 1 < tree.childCount p
  · rw [if_pos more, if_pos more]
    rfl
  · rw [if_neg more, if_neg more]
    by_cases stays : stayWithin = some p
    · rw [if_pos stays, if_neg fun both => both.2 stays]
    · rw [if_neg stays, if_pos ⟨rfl, stays⟩]

theorem traverseNextSibling_eq (outside : stayWithin ≠ some p) :
    traverseNextSibling tree stayWithin p = climb (nextSibling tree) stayWithin p := by
  rw [traverseNextSibling, if_neg outside]
  cases p with
  | nil => rfl
  | cons i p =>
    rw [climb_next, nextSibling]
    by_cases more : i + 1 < tree.childCount p
    · rw [if_pos more, if_pos more]
    · rw [if_neg more, if_neg more]

theorem traverseNextNode_eq (outside : stayWithin ≠ some p) :
    traverseNextNode tree stayWithin p =
      if 0 < tree.childCount p then some (0 :: p) else climb (nextSibling tree) stayWithin p := by
  rw [traverseNextNode, firstChild]
  by_cases parent : 0 < tree.childCount p
  · rw [if_pos parent, if_pos parent]
  · rw [if_neg parent, if_neg parent]
    exact traverseNextSibling_eq outside

/-- From a node the nodes of its subtree are visited in document order. -/
theorem visits_preorder (outside : ∀ within ∈ stayWithin, within ∉ tree.preorder p) :
    Visits (traverseNextNode tree stayWithin) (some p) (tree.preorder p)
      (climb (nextSibling tree) stayWithin p) := by
  induction p using tree.induction_on with
  | node p ih =>
    rw [Tree.preorder_eq] at outside ⊢
    have here : stayWithin ≠ some p := fun same => outside p same List.mem_cons_self
    refine ⟨rfl, ?_⟩
    rw [traverseNextNode_eq here]
    apply Tree.visits_below
    intro i child
    have visits := ih i child fun within stays inside =>
      outside within stays (List.mem_cons_of_mem p (Tree.mem_below.mpr ⟨i, child, inside⟩))
    rwa [climb_next, if_neg here] at visits

/-- Within a node the nodes below it are visited in document order. -/
theorem visits_below : Visits (traverseNextNode tree (some p)) (firstChild tree p) (tree.below p) none := by
  apply Tree.visits_below
  intro i child
  have visits := @visits_preorder tree (some p) (i :: p) fun within stays inside =>
    Tree.not_mem_below
      (Tree.mem_below.mpr ⟨i, child, (Option.mem_some.mp stays).symm ▸ inside⟩)
  rwa [climb_next, if_pos rfl] at visits

end

end WkcBrowser.Dom
