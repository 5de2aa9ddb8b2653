import WkcBrowser.Dom.NodeIterator

/-! What becomes of the place of an iterator when nodes are removed, and that it survives all of a run
exactly when each removal is of a harmless kind. -/

namespace WkcBrowser.Dom

open Lib

section
variable {N : Type} [Fintype N] [DecidableEq N]
variable {nodes : Nodes N} {contents : N → List N} {root : N} {cursor : Cursor N} {s : Iteration N}

/-! The removal of a node that has a place below the root. -/

section
variable {child : N} {before below after : List N} (lists : nodes.Lists contents)
  (acyclic : nodes.Acyclic) (place : Sited contents root child before below after)

include lists acyclic place

theorem inSubtree_iff_mem (a : N) : nodes.inSubtree child a = true ↔ a ∈ child :: below := by
  rw [acyclic.inSubtree_iff, List.mem_cons, place.inside.mem_below_iff, lists.childOf, Nodes.Above,
    Relation.reflTransGen_iff_eq_or_transGen, eq_comm]

theorem filter_subtree (part : List N) (inside : ∀ a ∈ part, a ∈ child :: below) :
    part.filter (!nodes.inSubtree child ·) = [] := by
  rw [List.filter_eq_nil_iff]
  intro a member
  rw [(inSubtree_iff_mem lists acyclic place a).mpr (inside a member)]
  exact Bool.false_ne_true

/-- The nodes before the subtree and after it stay. -/
theorem filter_outside (part : List N) (outside : ∀ a ∈ part, a ∈ before ∨ a ∈ after) :
    part.filter (!nodes.inSubtree child ·) = part := by
  have nodup := place.order.nodup_root (lists.branching acyclic)
  rw [List.append_assoc, List.nodup_append, List.nodup_append] at nodup
  obtain ⟨-, ⟨-, -, apart_after⟩, apart_before⟩ := nodup
  rw [List.filter_eq_self]
  intro a member
  rw [Bool.not_eq_true', ← Bool.not_eq_true, inSubtree_iff_mem lists acyclic place]
  intro inside
  obtain early | late := outside a member
  · exact apart_before a early a (List.mem_append_left _ inside) rfl
  · exact apart_after a inside a late rfl

/-- Walking on from the subtree ends after it. -/
theorem leaveSubtree_next :
    leaveSubtree nodes child (nodes.traverseNextNode (some root)) (Fintype.card N)
      (below ++ after).head? = after.head? := by
  have nodup := place.order.nodup_root (lists.branching acyclic)
  have order := lists.inOrder_eq acyclic place
  have bound : below.length < Fintype.card N := by
    have all := nodup.length_le_card
    rw [List.length_append, List.length_append, List.length_cons] at all
    omega
  have walk : ∀ (rest earlier : List N) (steps : Nat), below = earlier ++ rest →
      rest.length < steps →
      leaveSubtree nodes child (nodes.traverseNextNode (some root)) steps (rest ++ after).head? =
        after.head? := by
    intro rest
    induction rest with
    | nil =>
      intro earlier steps _ enough
      obtain ⟨steps, rfl⟩ : ∃ more, steps = more + 1 := ⟨steps - 1, by omega⟩
      cases after with
      | nil => rfl
      | cons a after =>
        have outside : ¬nodes.isDescendantOf a child = true := by
          rw [lists.isDescendantOf_iff acyclic place]
          intro inside
          rw [List.append_assoc, List.nodup_append, List.nodup_append] at nodup
          exact nodup.2.1.2.2 a (List.mem_cons_of_mem child inside) a List.mem_cons_self rfl
        exact if_neg outside
    | cons m rest ih =>
      intro earlier steps split enough
      obtain ⟨steps, rfl⟩ : ∃ more, steps = more + 1 := ⟨steps - 1, by omega⟩
      have inside : nodes.isDescendantOf m child = true := by
        rw [lists.isDescendantOf_iff acyclic place, split]
        exact List.mem_append_right _ List.mem_cons_self
      have there : nodes.inOrder root = (before ++ child :: earlier) ++ m :: (rest ++ after) := by
        rw [order, split]
        simp
      rw [List.cons_append, List.head?_cons, leaveSubtree, if_pos inside,
        (lists.traverse_split acyclic there).1]
      exact ih (earlier ++ [m]) steps (by simp [split]) (Nat.lt_of_succ_lt_succ enough)
  exact walk below [] _ rfl bound

/-- What is before the subtree is not in it. -/
theorem leaveSubtree_previous {a : N} (early : a ∈ before) (traverse : N → Option N) :
    leaveSubtree nodes child traverse (Fintype.card N) (some a) = some a := by
  obtain ⟨steps, count⟩ : ∃ steps, Fintype.card N = steps + 1 :=
    Nat.exists_eq_succ_of_ne_zero (Fintype.card_pos_iff.mpr ⟨a⟩).ne'
  have nodup := place.order.nodup_root (lists.branching acyclic)
  have outside : ¬nodes.isDescendantOf a child = true := by
    rw [lists.isDescendantOf_iff acyclic place]
    intro inside
    rw [List.append_assoc, List.nodup_append] at nodup
    exact nodup.2.2 a early a (List.mem_append_left _ (List.mem_cons_of_mem child inside)) rfl
  rw [count]
  exact if_neg outside

variable {iterator : NodeIterator N}

theorem update_outside {n : N} (outside : n ∉ child :: below) (isPointerBeforeNode : Bool) :
    iterator.updateForNodeRemoval nodes child ⟨some n, isPointerBeforeNode⟩ =
      ⟨some n, isPointerBeforeNode⟩ := by
  rw [List.mem_cons, not_or] at outside
  have different : ¬some n = some child := fun same => outside.1 (Option.some.inj same)
  have apart : nodes.isDescendantOf n child = false := by
    rw [← Bool.not_eq_true, lists.isDescendantOf_iff acyclic place]
    exact outside.2
  unfold NodeIterator.updateForNodeRemoval
  simp [different, apart]

variable (rooted : iterator.root = root) (other : child ≠ root)

include rooted other

theorem descendant_of_root : nodes.isDescendantOf child iterator.root = true := by
  rw [acyclic.isDescendantOf_iff, rooted, ← lists.childOf]
  exact (Relation.reflTransGen_iff_eq_or_transGen.mp place.above).resolve_left
    fun same => other same.symm

/-- The pointer after a node of the subtree goes to the node before the subtree. -/
theorem update_after {n : N} (inside : n ∈ child :: below) :
    iterator.updateForNodeRemoval nodes child ⟨some n, false⟩ = ⟨before.getLast?, false⟩ := by
  have down := descendant_of_root lists acyclic place rooted other
  obtain ⟨p, last⟩ : ∃ p, before.getLast? = some p :=
    Option.ne_none_iff_exists'.mp (mt List.getLast?_eq_none_iff.mp (place.before_ne_nil other))
  have previous : nodes.traversePreviousNode (some iterator.root) child = some p := by
    rw [rooted, lists.traversePreviousNode_eq acyclic place, last]
  have out := leaveSubtree_previous lists acyclic place (List.mem_of_getLast? last)
    (nodes.traversePreviousNode (some iterator.root))
  have affected : n = child ∨ nodes.isDescendantOf n child = true := by
    rw [lists.isDescendantOf_iff acyclic place]
    exact List.mem_cons.mp inside
  unfold NodeIterator.updateForNodeRemoval
  by_cases deeper : nodes.isDescendantOf n child = true
  · simp [down, deeper, previous, out, last]
  · obtain rfl := affected.resolve_right deeper
    simp [down, deeper, previous, last]

/-- The pointer before the node that is removed goes to the node after it. -/
theorem update_before :
    iterator.updateForNodeRemoval nodes child ⟨some child, true⟩ =
      match (below ++ after).head? with
      | some a => ⟨some a, true⟩
      | none => ⟨before.getLast?, false⟩ := by
  have down := descendant_of_root lists acyclic place rooted other
  have next := lists.traverseNextNode_eq acyclic place
  have previous := lists.traversePreviousNode_eq acyclic place
  obtain ⟨p, last⟩ : ∃ p, before.getLast? = some p :=
    Option.ne_none_iff_exists'.mp (mt List.getLast?_eq_none_iff.mp (place.before_ne_nil other))
  have apart : nodes.isDescendantOf child child = false := by
    rw [← Bool.not_eq_true, acyclic.isDescendantOf_iff]
    exact acyclic child
  unfold NodeIterator.updateForNodeRemoval
  rw [rooted] at down ⊢
  cases found : (below ++ after).head? with
  | some a => simp [down, apart, next, found]
  | none => simp [down, apart, next, previous, found, last]

/-- The pointer before a node below goes to the node after the subtree, or stays. -/
theorem update_below {n : N} (inside : n ∈ below) :
    iterator.updateForNodeRemoval nodes child ⟨some n, true⟩ =
      ⟨some (after.head?.getD n), true⟩ := by
  have down := descendant_of_root lists acyclic place rooted other
  have next := lists.traverseNextNode_eq acyclic place
  have out := leaveSubtree_next lists acyclic place
  have deeper : nodes.isDescendantOf n child = true :=
    (lists.isDescendantOf_iff acyclic place).mpr inside
  unfold NodeIterator.updateForNodeRemoval
  rw [rooted] at down ⊢
  obtain ⟨first, found⟩ : ∃ first, (below ++ after).head? = some first := by
    cases below with
    | nil => cases inside
    | cons first below => exact ⟨first, rfl⟩
  rw [found] at next out
  cases left : after.head? with
  | some a =>
    rw [left] at out
    simp [down, deeper, next, out]
  | none =>
    rw [left] at out
    simp [down, deeper, next, out]

end

/-- An iteration keeps its place when a node is removed below the root, except when the pointer is before
the reference node and that node is removed with children of its own, or is removed with a node above
it and nothing is left after them. -/
def Iteration.keepsPlace (s : Iteration N) : IterationEvent N → Bool
  | .nextNode | .previousNode => true
  | .remove child =>
    let pointer := s.iterator.referenceNode
    !(s.nodes.isDescendantOf child s.iterator.root && pointer.isPointerBeforeNode &&
      (pointer.node = some child && (s.nodes.firstChild child).isSome ||
        pointer.node.any (s.nodes.isDescendantOf · child) &&
          (s.nodes.inOrder s.iterator.root).getLast?.any (s.nodes.inSubtree child)))

omit [Fintype N] [DecidableEq N] in
/-- A node of the middle of three lists in a row splits only that one. -/
theorem split_middle {block front back before after : List N} {n : N} (nodup : (front ++ n :: back).Nodup)
    (same : front ++ n :: back = before ++ block ++ after) (inside : n ∈ block) :
    ∃ first last, block = first ++ n :: last ∧ front = before ++ first ∧ back = last ++ after := by
  obtain ⟨first, last, rfl⟩ := List.mem_iff_append.mp inside
  obtain ⟨not_front, not_back, -⟩ := Links.nodup_split nodup
  have regrouped : front ++ n :: back = (before ++ first) ++ n :: (last ++ after) := by
    rw [same]
    simp
  obtain ⟨front_eq, -, back_eq⟩ := (List.append_cons_inj_of_notMem not_front not_back).mp regrouped
  exact ⟨first, last, rfl, front_eq, back_eq⟩

omit [Fintype N] [DecidableEq N] in
/-- A pointer at a node that stays is at the same place among the others that stay. -/
theorem between_remove {n : N} {isPointerBeforeNode : Bool} {gone : N → Bool}
    (between : (⟨some n, isPointerBeforeNode⟩ : NodePointer N).Between cursor)
    (stays : gone n = false) :
    (⟨some n, isPointerBeforeNode⟩ : NodePointer N).Between (cursor.remove gone) := by
  have kept : (!gone n) = true := by rw [stays, Bool.not_false]
  obtain ⟨_, same, near⟩ := between
  cases same
  refine ⟨n, rfl, ?_⟩
  cases isPointerBeforeNode with
  | true =>
    obtain ⟨later, ahead⟩ := List.head?_eq_some_iff.mp near
    have first : cursor.ahead.filter (!gone ·) = n :: later.filter (!gone ·) := by
      rw [ahead]
      exact List.filter_cons_of_pos kept
    exact congrArg List.head? first
  | false =>
    obtain ⟨earlier, behind⟩ := List.head?_eq_some_iff.mp near
    have last : cursor.behind.filter (!gone ·) = n :: earlier.filter (!gone ·) := by
      rw [behind]
      exact List.filter_cons_of_pos kept
    exact congrArg List.head? last

omit [Fintype N] [DecidableEq N] in
theorem not_between_remove {n : N} {isPointerBeforeNode : Bool} {gone : N → Bool}
    (removed : gone n = true) :
    ¬(⟨some n, isPointerBeforeNode⟩ : NodePointer N).Between (cursor.remove gone) := by
  rintro ⟨_, same, near⟩
  cases same
  have listed : n ∈ cursor.ahead.filter (!gone ·) ∨ n ∈ cursor.behind.filter (!gone ·) := by
    cases isPointerBeforeNode with
    | true => exact .inl (List.mem_of_head? near)
    | false => exact .inr (List.mem_of_head? near)
  rw [List.mem_filter, List.mem_filter, removed] at listed
  simp at listed

/-- A place in the subtree is between what is before the subtree and what is after it. -/
theorem remove_inside {child : N} {before below after part rest : List N}
    (lists : nodes.Lists contents) (acyclic : nodes.Acyclic)
    (place : Sited contents root child before below after) (parts : child :: below = part ++ rest)
    (behind : cursor.behind.reverse = before ++ part) (ahead : cursor.ahead = rest ++ after) :
    cursor.remove (nodes.inSubtree child ·) = ⟨before.reverse, after⟩ := by
  have kept_after := filter_outside lists acyclic place after fun _ => .inr
  have kept_before := filter_outside lists acyclic place before fun _ => .inl
  have dropped_part := filter_subtree lists acyclic place part fun a member => by
    rw [parts]
    exact List.mem_append_left _ member
  have dropped_rest := filter_subtree lists acyclic place rest fun a member => by
    rw [parts]
    exact List.mem_append_right _ member
  have back : cursor.behind.filter (!nodes.inSubtree child ·) = before.reverse := by
    calc cursor.behind.filter (!nodes.inSubtree child ·)
      _ = (cursor.behind.reverse.filter (!nodes.inSubtree child ·)).reverse := by
        rw [List.filter_reverse, List.reverse_reverse]
      _ = before.reverse := by
        rw [behind, List.filter_append, kept_before, dropped_part, List.append_nil]
  rw [Cursor.remove, back, ahead, List.filter_append, kept_after, dropped_rest, List.nil_append]

theorem between_remove_iff {child : N} {before below after : List N}
    (lists : s.nodes.Lists contents) (acyclic : s.nodes.Acyclic)
    (place : Sited contents s.iterator.root child before below after)
    (other : child ≠ s.iterator.root) (here : s.At cursor) :
    (s.iterator.updateForNodeRemoval s.nodes child s.iterator.referenceNode).Between
        (cursor.remove (s.nodes.inSubtree child ·)) ↔ s.keepsPlace (.remove child) = true := by
  have down := descendant_of_root lists acyclic place rfl other
  have order := lists.inOrder_eq acyclic place
  have nodup := place.order.nodup_root (lists.branching acyclic)
  have gone := inSubtree_iff_mem lists acyclic place
  obtain ⟨n, is, near⟩ := here.between
  have whole : before ++ child :: below ++ after = cursor.behind.reverse ++ cursor.ahead := by
    rw [← order, here.order, Cursor.whole]
  have reference : s.iterator.referenceNode =
      ⟨some n, s.iterator.referenceNode.isPointerBeforeNode⟩ := by rw [← is]
  by_cases inside : n ∈ child :: below
  · cases flag : s.iterator.referenceNode.isPointerBeforeNode with
    | false =>
      have holds : s.keepsPlace (.remove child) = true := by simp [Iteration.keepsPlace, flag]
      rw [flag] at near reference
      obtain ⟨earlier, behind⟩ := List.head?_eq_some_iff.mp near
      have split : earlier.reverse ++ n :: cursor.ahead = before ++ child :: below ++ after := by
        rw [whole, behind]
        simp
      obtain ⟨part, rest, parts, front, back⟩ := split_middle (split ▸ nodup) split inside
      have parts' : child :: below = (part ++ [n]) ++ rest := by
        rw [parts]
        simp
      have left := remove_inside lists acyclic place parts'
        (by rw [behind, List.reverse_cons, front, List.append_assoc]) back
      obtain ⟨p, last⟩ : ∃ p, before.getLast? = some p := Option.ne_none_iff_exists'.mp
        (mt List.getLast?_eq_none_iff.mp (place.before_ne_nil other))
      rw [reference, update_after lists acyclic place rfl other inside, left, holds]
      refine iff_of_true ⟨p, last, ?_⟩ rfl
      exact List.head?_reverse.trans last
    | true =>
      rw [flag] at near reference
      obtain ⟨later, ahead⟩ := List.head?_eq_some_iff.mp near
      rw [ahead] at whole
      obtain ⟨part, rest, parts, front, back⟩ := split_middle (whole ▸ nodup) whole.symm inside
      have left := remove_inside lists acyclic place parts front
        (by rw [ahead, back, List.cons_append])
      have first : s.nodes.firstChild child = below.head? := by
        rw [place.inside.head]
        exact (lists.forms child).head
      obtain rfl | deeper := List.mem_cons.mp inside
      · have apart : s.nodes.isDescendantOf n n = false := by
          rw [← Bool.not_eq_true, acyclic.isDescendantOf_iff]
          exact acyclic n
        rw [reference, update_before lists acyclic place rfl other]
        cases below with
        | cons c below =>
          have lost : s.keepsPlace (.remove n) = false := by
            simp [Iteration.keepsPlace, down, flag, is, first]
          rw [lost]
          exact iff_of_false (not_between_remove ((gone c).mpr (by simp))) Bool.false_ne_true
        | nil =>
          have holds : s.keepsPlace (.remove n) = true := by
            simp [Iteration.keepsPlace, is, first, apart]
          rw [holds, left, List.nil_append]
          refine iff_of_true ?_ rfl
          cases found : after.head? with
          | some a => exact ⟨a, rfl, found⟩
          | none =>
            obtain ⟨p, last⟩ : ∃ p, before.getLast? = some p := Option.ne_none_iff_exists'.mp
              (mt List.getLast?_eq_none_iff.mp (place.before_ne_nil other))
            exact ⟨p, last, List.head?_reverse.trans last⟩
      · have descends := (lists.isDescendantOf_iff acyclic place).mpr deeper
        have different : n ≠ child := by
          rintro rfl
          exact acyclic n (acyclic.isDescendantOf_iff.mp descends)
        rw [reference, update_below lists acyclic place rfl other deeper]
        obtain rfl | ⟨front, last, rfl⟩ := List.eq_nil_or_concat after
        · have ending : ∃ last, (s.nodes.inOrder s.iterator.root).getLast? = some last ∧
              s.nodes.inSubtree child last = true := by
            obtain ⟨last, is_last⟩ : ∃ last, (child :: below).getLast? = some last :=
              ⟨_, List.getLast?_cons⟩
            refine ⟨last, ?_, (gone last).mpr (List.mem_of_getLast? is_last)⟩
            rw [order, List.append_nil, List.getLast?_append, is_last]
            rfl
          obtain ⟨last, is_last, removed⟩ := ending
          have lost : s.keepsPlace (.remove child) = false := by
            simp [Iteration.keepsPlace, down, flag, is, descends, is_last, removed]
          rw [lost]
          exact iff_of_false (not_between_remove ((gone n).mpr inside)) Bool.false_ne_true
        · have stays : s.nodes.inSubtree child last = false := by
            rw [← Bool.not_eq_true, gone]
            intro listed
            rw [List.append_assoc, List.nodup_append, List.nodup_append] at nodup
            exact nodup.2.1.2.2 last listed last (by simp) rfl
          have is_last : (s.nodes.inOrder s.iterator.root).getLast? = some last := by
            rw [order, List.concat_eq_append, ← List.append_assoc, List.getLast?_concat]
          have holds : s.keepsPlace (.remove child) = true := by
            simp [Iteration.keepsPlace, is, different, is_last, stays]
          rw [holds, left]
          refine iff_of_true ⟨_, rfl, ?_⟩ rfl
          cases found : (front.concat last).head? with
          | some a => rfl
          | none => simp at found
  · have apart : s.nodes.inSubtree child n = false := by
      rw [← Bool.not_eq_true, gone]
      exact inside
    have outside : n ≠ child ∧ s.nodes.isDescendantOf n child = false := by
      rw [← Bool.not_eq_true, lists.isDescendantOf_iff acyclic place, ← not_or, ← List.mem_cons]
      exact inside
    have holds : s.keepsPlace (.remove child) = true := by
      simp [Iteration.keepsPlace, is, outside.1, outside.2]
    have between := here.between
    rw [reference] at between ⊢
    rw [update_outside lists acyclic place inside, holds]
    exact iff_of_true (between_remove between apart) rfl

/-- What an event should do to an iteration at a place. -/
structure Iteration.Survives (s : Iteration N) (cursor : Cursor N) (event : IterationEvent N) :
    Prop where
  returned : s.returned event = .ok (s.expected cursor event).1
  place : (s.step event).At (s.expected cursor event).2
  /-- The reference node is in the tree of the root. -/
  inside : ∃ node, (s.step event).iterator.referenceNode.node = some node ∧
    (s.step event).nodes.inSubtree (s.step event).iterator.root node = true

theorem forest_step (forest : s.nodes.Forest) (event : IterationEvent N) :
    (s.step event).nodes.Forest := by
  cases event with
  | nextNode | previousNode => exact forest
  | remove child =>
    unfold Iteration.step
    dsimp only
    cases up : s.nodes.parentNode child with
    | none => exact forest
    | some parent => exact ⟨forest.linked.unlink up, forest.acyclic.unlink⟩

theorem step_remove {child parent : N} (up : s.nodes.parentNode child = some parent) :
    s.step (.remove child) =
      { nodes := s.nodes.unlink parent child
        iterator := s.iterator.nodeWillBeRemoved s.nodes child } := by
  unfold Iteration.step
  dsimp only
  rw [up]

theorem at_remove_iff (forest : s.nodes.Forest) (here : s.At cursor) (child : N) :
    (s.step (.remove child)).At (s.expected cursor (.remove child)).2 ↔
      s.keepsPlace (.remove child) = true := by
  obtain ⟨contents, lists⟩ := forest.linked.lists
  have acyclic := forest.acyclic
  by_cases down : s.nodes.isDescendantOf child s.iterator.root = true
  · obtain ⟨parent, up⟩ : ∃ parent, s.nodes.parentNode child = some parent := by
      obtain ⟨parent, up, -⟩ := Relation.TransGen.head'_iff.mp (acyclic.isDescendantOf_iff.mp down)
      exact ⟨parent, up⟩
    obtain ⟨before, below, after, place⟩ := lists.place acyclic
      (acyclic.inSubtree_iff.mpr (acyclic.isDescendantOf_iff.mp down).to_reflTransGen)
    have other : child ≠ s.iterator.root := by
      intro same
      rw [same, acyclic.isDescendantOf_iff] at down
      exact acyclic _ down
    have above : s.nodes.isDescendantOf s.iterator.root child = false := by
      rw [← Bool.not_eq_true, acyclic.isDescendantOf_iff]
      exact fun way => acyclic _ (way.trans (acyclic.isDescendantOf_iff.mp down))
    have order : (s.nodes.unlink parent child).inOrder s.iterator.root =
        (cursor.remove (s.nodes.inSubtree child ·)).whole := by
      rw [lists.inOrder_unlink acyclic up above other.symm, here.order, Cursor.whole_remove]
    have exact := between_remove_iff lists acyclic place other here
    rw [step_remove up, Iteration.expected, if_pos down, ← exact]
    exact ⟨fun kept => kept.between, fun between => ⟨here.attached, order, between⟩⟩
  · have holds : s.keepsPlace (.remove child) = true := by simp [Iteration.keepsPlace, down]
    rw [holds]
    refine iff_of_true ?_ rfl
    rw [Iteration.expected, if_neg down]
    cases up : s.nodes.parentNode child with
    | none =>
      have same : s.step (.remove child) = s := by
        unfold Iteration.step
        dsimp only
        rw [up]
      rw [same]
      exact here
    | some parent =>
      rw [Bool.not_eq_true] at down
      rw [step_remove up]
      refine ⟨here.attached, ?_, ?_⟩
      · rw [← here.order]
        exact lists.inOrder_unlink_other acyclic up down
      · have same : s.iterator.updateForNodeRemoval s.nodes child s.iterator.referenceNode =
            s.iterator.referenceNode := by
          unfold NodeIterator.updateForNodeRemoval
          simp [down]
        change NodePointer.Between (s.iterator.updateForNodeRemoval s.nodes child _) _
        rw [same]
        exact here.between

theorem survives_step_iff (forest : s.nodes.Forest) (here : s.At cursor) (event : IterationEvent N) :
    s.Survives cursor event ↔ s.keepsPlace event = true := by
  obtain ⟨contents, lists⟩ := forest.linked.lists
  -- The reference node is next to a place of the order.
  have inside : ∀ {s : Iteration N} {cursor : Cursor N}, s.nodes.Forest → s.At cursor →
      ∃ node, s.iterator.referenceNode.node = some node ∧
        s.nodes.inSubtree s.iterator.root node = true := by
    intro s cursor forest here
    obtain ⟨contents, lists⟩ := forest.linked.lists
    obtain ⟨node, is, near⟩ := here.between
    refine ⟨node, is, (lists.mem_inOrder_iff forest.acyclic).mp ?_⟩
    rw [here.order, Cursor.whole, List.mem_append, List.mem_reverse]
    by_cases before : s.iterator.referenceNode.isPointerBeforeNode = true
    · rw [if_pos before] at near
      exact .inr (List.mem_of_head? near)
    · rw [if_neg before] at near
      exact .inl (List.mem_of_head? near)
  have enough : s.returned event = .ok (s.expected cursor event).1 →
      ((s.step event).At (s.expected cursor event).2 ↔ s.keepsPlace event = true) →
      (s.Survives cursor event ↔ s.keepsPlace event = true) := by
    intro returned place
    rw [← place]
    exact ⟨fun survives => survives.place,
      fun there => ⟨returned, there, inside (forest_step forest event) there⟩⟩
  cases event with
  | nextNode =>
    obtain ⟨returned, place⟩ := at_nextNode lists forest.acyclic here
    exact enough returned (iff_of_true place rfl)
  | previousNode =>
    obtain ⟨returned, place⟩ := at_previousNode lists forest.acyclic here
    exact enough returned (iff_of_true place rfl)
  | remove child => exact enough rfl (at_remove_iff forest here child)

/-- An iteration with the place where its pointer should be. -/
def Iteration.follow (now : Iteration N × Cursor N) (event : IterationEvent N) :
    Iteration N × Cursor N :=
  (now.1.step event, (now.1.expected now.2 event).2)

def Iteration.start (nodes : Nodes N) (root : N) (whatToShow : BitVec 32)
    (filter : Option (Nodes N → N → Int)) : Iteration N × Cursor N :=
  (⟨nodes, .create root whatToShow filter⟩, ⟨[], nodes.inOrder root⟩)

/-- An iterator keeps its place in all of a run exactly when each removal lets it. -/
theorem survives_iff (forest : nodes.Forest) (root : N) (whatToShow : BitVec 32)
    (filter : Option (Nodes N → N → Int)) (events : List (IterationEvent N)) :
    Along Iteration.follow (fun now event => now.1.Survives now.2 event)
        (Iteration.start nodes root whatToShow filter) events ↔
      Along Iteration.follow (fun now event => now.1.keepsPlace event = true)
        (Iteration.start nodes root whatToShow filter) events := by
  have start : (Iteration.start nodes root whatToShow filter).1.At
      (Iteration.start nodes root whatToShow filter).2 := by
    obtain ⟨contents, lists⟩ := forest.linked.lists
    refine ⟨rfl, rfl, root, rfl, ?_⟩
    exact (lists.inOrder_spec forest.acyclic root).head
  have admitted : Along Iteration.follow (fun _ _ => True)
      (Iteration.start nodes root whatToShow filter) events :=
    along_of_forall (fun _ _ => trivial) _ _
  exact along_iff (fun now => now.1.nodes.Forest ∧ now.1.At now.2)
    (fun now event valid _ => survives_step_iff valid.1 valid.2 event)
    (fun now event valid _ survives => ⟨forest_step valid.1 event, survives.place⟩)
    _ _ ⟨forest, start⟩ admitted

end

/-- After going to the second element and back over it, that element is removed. -/
def backAndRemove : List (IterationEvent (Fin 3)) :=
  [.nextNode, .nextNode, .previousNode, .remove 1]

theorem not_survives : ∃ (nodes : Nodes (Fin 3)) (events : List (IterationEvent (Fin 3))),
    nodes.Forest ∧ ¬Along Iteration.follow (fun now event => now.1.Survives now.2 event)
      (Iteration.start nodes 0 0xFFFFFFFF none) events := by
  refine ⟨chain, backAndRemove, chain_forest, fun along => ?_⟩
  obtain ⟨-, -, -, survives, -⟩ := along
  obtain ⟨node, is, inside⟩ := survives.inside
  -- The pointer is now at the child of the element that was removed.
  have outside : ∀ node,
      (after Iteration.follow (Iteration.start chain 0 0xFFFFFFFF none)
        backAndRemove).1.iterator.referenceNode.node = some node →
      (after Iteration.follow (Iteration.start chain 0 0xFFFFFFFF none)
        backAndRemove).1.nodes.inSubtree 0 node = false := by
    decide
  exact absurd inside (by rw [Bool.not_eq_true]; exact outside node is)

/-- Without going back the element is removed and the iteration ends at the root. -/
theorem survives_iff_chain :
    Along Iteration.follow (fun now event => now.1.Survives now.2 event)
      (Iteration.start chain 0 0xFFFFFFFF none)
      [.nextNode, .nextNode, .remove 1, .nextNode, .previousNode] :=
  (survives_iff chain_forest 0 0xFFFFFFFF none _).mpr (by decide)

end WkcBrowser.Dom
