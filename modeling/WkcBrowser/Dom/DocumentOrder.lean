import WkcBrowser.Dom.Forest
import WkcBrowser.Lib.TreeOrder
import WkcBrowser.Lib.Walks

/-! Walks over linked nodes in the order of the document, and that they find the nodes next to each
other in it. -/

namespace WkcBrowser.Dom

open Lib

namespace Nodes

variable {N : Type}

section
variable (nodes : Nodes N)

/-- The last loop of `traverseNextNode`, in some steps. -/
def climb [DecidableEq N] (stayWithin : Option N) : Nat → Option N → Option N
  | 0, n => n
  | _, none => none
  | steps + 1, some n =>
    if nodes.nextSibling n = none ∧ (stayWithin = none ∨ nodes.parentNode n ≠ stayWithin) then
      climb stayWithin steps (nodes.parentNode n)
    else some n

/-- The loop of `traversePreviousNode`, in some steps. -/
def lastBelow : Nat → N → N
  | 0, n => n
  | steps + 1, n =>
    match nodes.lastChild n with
    | none => n
    | some child => lastBelow steps child

variable [Fintype N] [DecidableEq N]

def traverseNextNode (stayWithin : Option N) (n : N) : Option N :=
  match nodes.firstChild n with
  | some child => some child
  | none =>
    if some n = stayWithin then none
    else
      match nodes.nextSibling n with
      | some sibling => some sibling
      | none => (nodes.climb stayWithin (Fintype.card N) (some n)).bind nodes.nextSibling

def traverseNextSibling (stayWithin : Option N) (n : N) : Option N :=
  if some n = stayWithin then none
  else
    match nodes.nextSibling n with
    | some sibling => some sibling
    | none => (nodes.climb stayWithin (Fintype.card N) (some n)).bind nodes.nextSibling

def traversePreviousNode (stayWithin : Option N) (n : N) : Option N :=
  if some n = stayWithin then none
  else
    match nodes.previousSibling n with
    | some sibling => some (nodes.lastBelow (Fintype.card N) sibling)
    | none => nodes.parentNode n

/-- The nodes of a subtree, each before its children. -/
def inOrder (root : N) : List N := preorderTo nodes.childNodes (Fintype.card N) root

end

variable {nodes : Nodes N} {contents : N → List N} {root n : N} {before below after : List N}

/-! The lists of children make a tree. -/

theorem Lists.childOf (lists : nodes.Lists contents) : ChildOf contents = nodes.Up := by
  funext child parent
  exact propext (lists.parent parent child)

theorem Lists.branching (lists : nodes.Lists contents) (acyclic : nodes.Acyclic) :
    Branching contents where
  nodup n := (lists.forms n).nodup
  single c a b first second := Option.some.inj
    (((lists.parent a c).mp first).symm.trans ((lists.parent b c).mp second))
  acyclic := by
    rw [lists.childOf]
    exact acyclic

theorem Lists.childNodes_eq [Fintype N] (lists : nodes.Lists contents) :
    nodes.childNodes = contents := by
  funext this
  have forms := lists.forms this
  have walk : ∀ (rest earlier : List N) (steps : Nat), contents this = earlier ++ rest →
      rest.length ≤ steps → nodes.nodesFrom steps rest.head? = rest := by
    intro rest
    induction rest with
    | nil => intro _ steps _ _; cases steps <;> rfl
    | cons c rest ih =>
      intro earlier steps split enough
      cases steps with
      | zero => exact absurd enough (Nat.not_succ_le_zero _)
      | succ steps =>
        have next : nodes.nextSibling c = rest.head? := (forms.links earlier c rest split).1
        rw [List.head?_cons, nodesFrom, next, ih (earlier ++ [c]) steps (by simp [split])
          (Nat.le_of_succ_le_succ enough)]
  have head : nodes.firstChild this = (contents this).head? := forms.head
  rw [childNodes, head]
  exact walk (contents this) [] _ rfl forms.nodup.length_le_card

section
variable [DecidableEq N]

/-! The loops in terms of places of the order. -/

theorem Lists.climb_eq (lists : nodes.Lists contents) (acyclic : nodes.Acyclic)
    (place : Sited contents root n before below after) (other : n ≠ root) {steps : Nat}
    (enough : before.length ≤ steps) :
    (nodes.climb (some root) steps (some n)).bind nodes.nextSibling = after.head? := by
  have branching := lists.branching acyclic
  induction place generalizing steps with
  | root => exact absurd rfl other
  | @child parent c left right before earlier below later after up split _ _ last ih =>
    have member : c ∈ contents parent := split ▸ List.mem_append_right _ List.mem_cons_self
    have parentNode : nodes.parentNode c = some parent := (lists.parent parent c).mp member
    have next : nodes.nextSibling c = right.head? := ((lists.forms parent).links left c right split).1
    rw [List.length_append, List.length_cons] at enough
    obtain ⟨steps, rfl⟩ : ∃ more, steps = more + 1 := ⟨steps - 1, by omega⟩
    rw [climb, List.head?_append, last.head, next, parentNode]
    cases right with
    | cons sibling right => simp [next]
    | nil =>
      by_cases top : parent = root
      · obtain ⟨-, nothing⟩ := up.root_eq branching top
        simp [top, next, nothing]
      · have goes : ([] : List N).head? = none ∧
            (some root = none ∨ some parent ≠ some root) := by simp [top]
        rw [if_pos goes, ih top (by omega)]
        rfl

omit [DecidableEq N] in
theorem Lists.lastBelow_eq (lists : nodes.Lists contents) {ns order : List N}
    (whole : Preorder contents ns order) {steps : Nat} (enough : order.length ≤ steps) :
    order.getLast? = ns.getLast?.map (nodes.lastBelow steps) := by
  induction whole generalizing steps with
  | nil => rfl
  | @cons n below rest others inside later ih_inside ih_later =>
    rw [List.cons_append, List.length_cons, List.length_append] at enough
    obtain ⟨steps, rfl⟩ : ∃ more, steps = more + 1 := ⟨steps - 1, by omega⟩
    have deep : below.length ≤ steps := by omega
    have wide : others.length ≤ steps + 1 := by omega
    have last : nodes.lastChild n = (contents n).getLast? := (lists.forms n).tail
    obtain rfl | ⟨front, sibling, rfl⟩ := List.eq_nil_or_concat rest
    · cases later
      have down := ih_inside deep
      rw [← last] at down
      rw [List.append_nil, List.getLast?_cons, down, List.getLast?_singleton, Option.map_some,
        lastBelow]
      cases nodes.lastChild n with
      | none => rfl
      | some child => rfl
    · have back := ih_later wide
      rw [List.concat_eq_append, List.getLast?_concat, Option.map_some] at back
      rw [List.getLast?_append, back, List.concat_eq_append, ← List.cons_append,
        List.getLast?_concat]
      rfl

variable [Fintype N]

/-- Each node leads to the one after it. -/
theorem Lists.traverseNextNode_eq (lists : nodes.Lists contents) (acyclic : nodes.Acyclic)
    (place : Sited contents root n before below after) :
    nodes.traverseNextNode (some root) n = (below ++ after).head? := by
  have branching := lists.branching acyclic
  have first : nodes.firstChild n = (contents n).head? := (lists.forms n).head
  have down := place.inside.head
  rw [List.head?_append, down, ← first, traverseNextNode]
  cases nodes.firstChild n with
  | some child => rfl
  | none =>
    rw [Option.none_or]
    by_cases top : n = root
    · rw [if_pos (congrArg some top), (place.root_eq branching top).2]
      rfl
    · have nodup := place.order.nodup_root branching
      have bound : before.length ≤ Fintype.card N := by
        have all := nodup.length_le_card
        rw [List.length_append, List.length_append] at all
        omega
      have found := lists.climb_eq acyclic place top bound
      rw [if_neg fun same => top (Option.some.inj same)]
      cases next : nodes.nextSibling n with
      | none => exact found
      | some sibling =>
        obtain ⟨steps, count⟩ : ∃ steps, Fintype.card N = steps + 1 :=
          Nat.exists_eq_succ_of_ne_zero (Fintype.card_pos_iff.mpr ⟨n⟩).ne'
        rw [count, climb, if_neg (by simp [next]), Option.bind_some, next] at found
        exact found

/-- Each node leads back to the one before it. -/
theorem Lists.traversePreviousNode_eq (lists : nodes.Lists contents) (acyclic : nodes.Acyclic)
    (place : Sited contents root n before below after) :
    nodes.traversePreviousNode (some root) n = before.getLast? := by
  have branching := lists.branching acyclic
  rw [traversePreviousNode]
  by_cases top : n = root
  · rw [if_pos (congrArg some top), (place.root_eq branching top).1]
    rfl
  · rw [if_neg fun same => top (Option.some.inj same)]
    have nodup := place.order.nodup_root branching
    have bound : before.length ≤ Fintype.card N := by
      have all := nodup.length_le_card
      rw [List.length_append, List.length_append] at all
      omega
    cases place with
    | root => exact absurd rfl top
    | @child parent c left right before earlier _ _ _ up split first _ _ =>
      have member : n ∈ contents parent := split ▸ List.mem_append_right _ List.mem_cons_self
      have parentNode : nodes.parentNode n = some parent := (lists.parent parent n).mp member
      have previous : nodes.previousSibling n = left.getLast? :=
        ((lists.forms parent).links left n right split).2
      have enough : earlier.length ≤ Fintype.card N := by
        rw [List.length_append, List.length_cons] at bound
        omega
      have down := lists.lastBelow_eq first enough
      rw [List.getLast?_append, List.getLast?_cons, down, previous]
      cases left.getLast? with
      | none => exact parentNode
      | some sibling => rfl

/-- The order of the nodes is the one the traversal follows. -/
theorem Lists.inOrder_spec (lists : nodes.Lists contents) (acyclic : nodes.Acyclic) (root : N) :
    Preorder contents [root] (nodes.inOrder root) := by
  rw [inOrder, lists.childNodes_eq]
  exact preorderTo_card (lists.branching acyclic) root

theorem Lists.inOrder_eq (lists : nodes.Lists contents) (acyclic : nodes.Acyclic)
    (place : Sited contents root n before below after) :
    nodes.inOrder root = before ++ n :: below ++ after :=
  (lists.inOrder_spec acyclic root).unique place.order

theorem Lists.place (lists : nodes.Lists contents) (acyclic : nodes.Acyclic)
    (inside : nodes.inSubtree root n = true) :
    ∃ before below after, Sited contents root n before below after := by
  refine Sited.exists (lists.inOrder_spec acyclic root) ?_
  rw [lists.childOf]
  exact acyclic.inSubtree_iff.mp inside

theorem Lists.mem_inOrder_iff (lists : nodes.Lists contents) (acyclic : nodes.Acyclic) :
    n ∈ nodes.inOrder root ↔ nodes.inSubtree root n = true := by
  rw [(lists.inOrder_spec acyclic root).mem_iff, lists.childOf, acyclic.inSubtree_iff]
  simp [Above]

/-- The neighbours in the order are those that the traversals find. -/
theorem Lists.traverse_split (lists : nodes.Lists contents) (acyclic : nodes.Acyclic)
    (split : nodes.inOrder root = before ++ n :: after) :
    nodes.traverseNextNode (some root) n = after.head? ∧
      nodes.traversePreviousNode (some root) n = before.getLast? := by
  have member : n ∈ nodes.inOrder root := split ▸ List.mem_append_right _ List.mem_cons_self
  obtain ⟨front, below, back, place⟩ :=
    lists.place acyclic ((lists.mem_inOrder_iff acyclic).mp member)
  have same : before ++ n :: after = front ++ n :: (below ++ back) := by
    rw [← split, lists.inOrder_eq acyclic place, List.append_assoc, List.cons_append]
  have nodup := place.order.nodup_root (lists.branching acyclic)
  rw [List.append_assoc, List.cons_append, ← same] at nodup
  obtain ⟨not_before, not_after, -⟩ := Links.nodup_split nodup
  obtain ⟨rfl, -, rfl⟩ := (List.append_cons_inj_of_notMem not_before not_after).mp same
  exact ⟨lists.traverseNextNode_eq acyclic place, lists.traversePreviousNode_eq acyclic place⟩

/-- What is below a node is what the traversal finds right after it. -/
theorem Lists.isDescendantOf_iff (lists : nodes.Lists contents) (acyclic : nodes.Acyclic)
    (place : Sited contents root n before below after) {other : N} :
    nodes.isDescendantOf other n = true ↔ other ∈ below := by
  rw [acyclic.isDescendantOf_iff, place.inside.mem_below_iff, lists.childOf]

/-- The order when a subtree is taken out of the tree of the root. -/
theorem Lists.inOrder_unlink (lists : nodes.Lists contents) (acyclic : nodes.Acyclic)
    {parent child : N} (up : nodes.parentNode child = some parent)
    (outside : nodes.isDescendantOf root child = false) (other : root ≠ child) :
    (nodes.unlink parent child).inOrder root =
      (nodes.inOrder root).filter (!nodes.inSubtree child ·) := by
  have branching := lists.branching acyclic
  have member : child ∈ contents parent := (lists.parent parent child).mpr up
  obtain ⟨left, right, split⟩ := List.mem_iff_append.mp member
  have cut : (nodes.unlink parent child).Lists (Function.update contents parent (left ++ right)) := by
    rw [unlink_eq lists up]
    exact lists.cut split
  -- Taking it out of the list of its parent is taking it out of all lists.
  have everywhere : Function.update contents parent (left ++ right) =
      fun n => (contents n).filter (· ≠ child) := by
    funext n
    have nodup := branching.nodup n
    by_cases same : n = parent
    · rw [same, split, List.nodup_append, List.nodup_cons] at nodup
      obtain ⟨-, ⟨not_right, -⟩, apart⟩ := nodup
      have left_eq : left.filter (· ≠ child) = left :=
        List.filter_eq_self.mpr fun a here => by simpa using apart a here child (by simp)
      have right_eq : right.filter (· ≠ child) = right := by
        refine List.filter_eq_self.mpr fun a here => ?_
        simp only [ne_eq, decide_not, Bool.not_eq_eq_eq_not, Bool.not_true, decide_eq_false_iff_not]
        exact fun equal => not_right (equal ▸ here)
      rw [same, Function.update_self, split, List.filter_append, left_eq,
        List.filter_cons_of_neg (by simp), right_eq]
    · rw [Function.update_of_ne same]
      refine (List.filter_eq_self.mpr fun a here => ?_).symm
      have different : a ≠ child := by
        rintro rfl
        exact same (branching.single a n parent here member)
      simpa using different
  have below_iff : ∀ a, nodes.inSubtree child a = true ↔
      Relation.ReflTransGen (ChildOf contents) a child := by
    intro a
    rw [acyclic.inSubtree_iff, lists.childOf]
    rfl
  have pruned := (lists.inOrder_spec acyclic root).prune branching (nodes.inSubtree child)
    below_iff fun n here deeper => by
      rw [List.mem_singleton.mp here, lists.childOf, ← acyclic.isDescendantOf_iff, outside] at deeper
      cases deeper
  rw [← everywhere, List.filter_cons_of_pos (by simpa using other)] at pruned
  exact (cut.inOrder_spec acyclic.unlink root).unique pruned

/-- What is taken out elsewhere does not change the order. -/
theorem Lists.inOrder_unlink_other (lists : nodes.Lists contents) (acyclic : nodes.Acyclic)
    {parent child : N} (up : nodes.parentNode child = some parent)
    (outside : nodes.isDescendantOf child root = false) :
    (nodes.unlink parent child).inOrder root = nodes.inOrder root := by
  obtain ⟨left, right, split⟩ := List.mem_iff_append.mp ((lists.parent parent child).mpr up)
  have cut : (nodes.unlink parent child).Lists (Function.update contents parent (left ++ right)) := by
    rw [unlink_eq lists up]
    exact lists.cut split
  have unlisted : parent ∉ nodes.inOrder root := by
    rw [lists.mem_inOrder_iff acyclic, acyclic.inSubtree_iff]
    intro above
    have down := acyclic.isDescendantOf_iff.mpr (Relation.TransGen.head' up above)
    rw [outside] at down
    cases down
  have same : ∀ a ∈ nodes.inOrder root,
      Function.update contents parent (left ++ right) a = contents a := by
    intro a listed
    have different : a ≠ parent := by
      rintro rfl
      exact unlisted listed
    exact Function.update_of_ne different _ _
  exact (cut.inOrder_spec acyclic.unlink root).unique
    ((lists.inOrder_spec acyclic root).congr same)

/-! The tree of a node without a parent. -/

variable {nodes' : Nodes N} {child this : N}

theorem SameLinks.inOrder (same : nodes.SameLinks nodes') (forest : nodes.Forest) :
    nodes'.inOrder root = nodes.inOrder root := by
  obtain ⟨contents, lists⟩ := forest.linked.lists
  exact ((same.lists.mpr lists).inOrder_spec (same.acyclic.mpr forest.acyclic) root).unique
    (lists.inOrder_spec forest.acyclic root)

theorem Forest.mem_inOrder_iff (forest : nodes.Forest) :
    n ∈ nodes.inOrder root ↔ nodes.inSubtree root n = true := by
  obtain ⟨contents, lists⟩ := forest.linked.lists
  exact lists.mem_inOrder_iff forest.acyclic

theorem Forest.nodup_inOrder (forest : nodes.Forest) : (nodes.inOrder root).Nodup := by
  obtain ⟨contents, lists⟩ := forest.linked.lists
  exact (lists.inOrder_spec forest.acyclic root).nodup_root (lists.branching forest.acyclic)

/-- Nothing is above a node without a parent. -/
theorem Forest.isDescendantOf_eq_false (forest : nodes.Forest) (top : nodes.parentNode root = none) :
    nodes.isDescendantOf root n = false := by
  rw [← Bool.not_eq_true, forest.acyclic.isDescendantOf_iff]
  intro above
  obtain ⟨parent, up, -⟩ := Relation.TransGen.head'_iff.mp above
  rw [Up, top] at up
  cases up

/-- What leaves the tree of the root. -/
theorem Forest.inOrder_unlink (forest : nodes.Forest) (top : nodes.parentNode root = none)
    (up : nodes.parentNode child = some this) :
    (nodes.unlink this child).Forest ∧ (nodes.unlink this child).inOrder root =
      (nodes.inOrder root).filter (!nodes.inSubtree child ·) ∧
    (nodes.inSubtree root child = false →
      (nodes.unlink this child).inOrder root = nodes.inOrder root) := by
  obtain ⟨contents, lists⟩ := forest.linked.lists
  have other : root ≠ child := by
    rintro rfl
    rw [top] at up
    cases up
  refine ⟨⟨forest.linked.unlink up, forest.acyclic.unlink⟩, ?_, fun outside => ?_⟩
  · exact lists.inOrder_unlink forest.acyclic up (forest.isDescendantOf_eq_false top) other
  · unfold inSubtree at outside
    exact lists.inOrder_unlink_other forest.acyclic up (Bool.or_eq_false_iff.mp outside).2

omit [Fintype N] in
/-- Above the root there is nothing to climb to. -/
theorem Forest.climb_none (forest : nodes.Forest) (top : nodes.parentNode root = none) (steps : Nat) :
    (nodes.climb none steps (some root)).bind nodes.nextSibling = none := by
  obtain ⟨alone, -⟩ := forest.linked.unlinked root top
  have noNext : nodes.nextSibling root = none := alone
  cases steps with
  | zero => exact noNext
  | succ steps =>
    rw [climb, if_pos ⟨noNext, .inl rfl⟩, top]
    cases steps <;> rfl

omit [Fintype N] in
theorem Forest.climb_eq (forest : nodes.Forest) (top : nodes.parentNode root = none) (steps : Nat)
    (inside : nodes.Above n root) (other : n ≠ root) :
    (nodes.climb none steps (some n)).bind nodes.nextSibling =
      (nodes.climb (some root) steps (some n)).bind nodes.nextSibling := by
  induction steps generalizing n with
  | zero => rfl
  | succ steps ih =>
    by_cases last : nodes.nextSibling n = none
    · obtain same | ⟨parent, up, above⟩ := Relation.ReflTransGen.cases_head inside
      · exact absurd same other
      · rw [climb, climb, if_pos ⟨last, .inl rfl⟩]
        have parent_eq : nodes.parentNode n = some parent := up
        by_cases here : parent = root
        · subst here
          have stays : ¬(nodes.nextSibling n = none ∧
              (some parent = none ∨ nodes.parentNode n ≠ some parent)) := by
            rintro ⟨-, none | different⟩
            · cases none
            · exact different parent_eq
          rw [if_neg stays, parent_eq, Option.bind_some, last]
          exact forest.climb_none top steps
        · have goes : nodes.nextSibling n = none ∧
              (some root = none ∨ nodes.parentNode n ≠ some root) := by
            refine ⟨last, .inr fun same => here ?_⟩
            rw [parent_eq] at same
            exact Option.some.inj same
          rw [if_pos goes, parent_eq]
          exact ih above here
    · have stays : ∀ within : Option N, ¬(nodes.nextSibling n = none ∧
          (within = none ∨ nodes.parentNode n ≠ within)) := fun _ both => last both.1
      rw [climb, climb, if_neg (stays _), if_neg (stays _)]

theorem Forest.traverseNextNode_none (forest : nodes.Forest) (top : nodes.parentNode root = none)
    (inside : nodes.Above n root) :
    nodes.traverseNextNode none n = nodes.traverseNextNode (some root) n := by
  rw [traverseNextNode, traverseNextNode]
  cases nodes.firstChild n with
  | some child => rfl
  | none =>
    dsimp only
    rw [if_neg (Option.some_ne_none n)]
    by_cases here : n = root
    · subst here
      obtain ⟨alone, -⟩ := forest.linked.unlinked n top
      have noNext : nodes.nextSibling n = none := alone
      rw [if_pos rfl, noNext]
      exact forest.climb_none top _
    · rw [if_neg fun same => here (Option.some.inj same)]
      cases nodes.nextSibling n with
      | some sibling => rfl
      | none => exact forest.climb_eq top _ inside here

/-- From a root the traversal of everything goes through its tree. -/
theorem Forest.follows_traverseNextNode (forest : nodes.Forest) (top : nodes.parentNode root = none) :
    Follows (nodes.traverseNextNode none) (nodes.inOrder root) := by
  obtain ⟨contents, lists⟩ := forest.linked.lists
  have within : Follows (nodes.traverseNextNode (some root)) (nodes.inOrder root) :=
    follows_of_split fun _ _ _ split => (lists.traverse_split forest.acyclic split).1
  refine within.congr fun n member => forest.traverseNextNode_none top ?_
  exact forest.acyclic.inSubtree_iff.mp (forest.mem_inOrder_iff.mp member)

end

end Nodes

end WkcBrowser.Dom
