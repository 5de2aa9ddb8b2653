import WkcBrowser.Dom.NodeList
import WkcBrowser.Lib.Along
import WkcBrowser.Lib.Walks

/-! When what node lists find from their caches is what a walk over the tree finds. -/

namespace WkcBrowser.Dom

open Lib

/-! Walks along a list. -/

section
variable {N : Type} {next : N → Option N} {counted accepts : N → Bool} {items : List N}

theorem countFrom_eq (follows : Follows next items) {steps : Nat} (enough : items.length ≤ steps)
    (length : BitVec 32) :
    countFrom next counted steps items.head? length =
      length + BitVec.ofNat 32 (items.countP counted) := by
  induction items generalizing steps length with
  | nil => cases steps <;> simp [countFrom]
  | cons n rest ih =>
    obtain ⟨steps, rfl⟩ : ∃ more, steps = more + 1 := ⟨steps - 1, by
      rw [List.length_cons] at enough
      omega⟩
    rw [List.head?_cons, countFrom, follows.1,
      ih follows.2 (by rw [List.length_cons] at enough; omega), List.countP_cons, BitVec.add_assoc]
    congr 1
    split <;> simp [BitVec.ofNat_add, BitVec.add_comm]

theorem toNat_countFrom (follows : Follows next items) {steps : Nat} (enough : items.length ≤ steps)
    (small : items.countP counted < 2 ^ 32) :
    (countFrom next counted steps items.head? 0).toNat = items.countP counted := by
  rw [countFrom_eq follows enough, BitVec.toNat_add, BitVec.toNat_ofNat]
  simpa using small

theorem walk_eq (follows : Follows next items) (steps : Nat) :
    walk next steps items.head? = items[steps]? := by
  induction items generalizing steps with
  | nil => cases steps <;> rfl
  | cons n rest ih =>
    cases steps with
    | zero => rfl
    | succ steps =>
      rw [List.head?_cons, walk, follows.1, ih follows.2, List.getElem?_cons_succ]

/-- The accepted element with a number is found when one counts to zero from it. -/
theorem itemFromCurrent_eq (follows : Follows next items) {steps : Nat}
    (enough : items.length ≤ steps) {towardsZero : Int} (unit : towardsZero ≠ 0) (number : Nat) :
    itemFromCurrent next accepts towardsZero steps items.head? (-towardsZero * number) =
      (items.filter accepts)[number]? := by
  induction items generalizing steps number with
  | nil => cases steps <;> rfl
  | cons n rest ih =>
    rw [List.length_cons] at enough
    obtain ⟨steps, rfl⟩ : ∃ more, steps = more + 1 := ⟨steps - 1, by omega⟩
    rw [List.head?_cons, itemFromCurrent, follows.1]
    by_cases accepted : accepts n = true
    · rw [if_pos accepted, List.filter_cons_of_pos accepted]
      cases number with
      | zero => rw [if_pos (by simp)]; rfl
      | succ number =>
        have more : -towardsZero * (number + 1 : Nat) + towardsZero = -towardsZero * number := by
          rw [Int.natCast_succ, Int.mul_add, Int.mul_one, Int.neg_add_cancel_right]
        have distinct : -towardsZero * ((number + 1 : Nat) : Int) ≠ 0 :=
          Int.mul_ne_zero (Int.neg_ne_zero.mpr unit) (by omega)
        rw [if_neg distinct, more, ih follows.2 (by omega), List.getElem?_cons_succ]
    · rw [if_neg accepted, List.filter_cons_of_neg accepted]
      exact ih follows.2 (by omega) number

/-- Where an accepted element is. -/
theorem split_of_filter {number : Nat} {n : N} (found : (items.filter accepts)[number]? = some n) :
    ∃ before after, items = before ++ n :: after ∧ (before.filter accepts).length = number ∧
      accepts n = true := by
  induction items generalizing number with
  | nil => cases found
  | cons m rest ih =>
    by_cases accepted : accepts m = true
    · rw [List.filter_cons_of_pos accepted] at found
      cases number with
      | zero =>
        obtain rfl : m = n := Option.some.inj found
        exact ⟨[], rest, rfl, rfl, accepted⟩
      | succ number =>
        obtain ⟨before, after, rfl, length, same⟩ := ih found
        refine ⟨m :: before, after, rfl, ?_, same⟩
        rw [List.filter_cons_of_pos accepted, List.length_cons, length]
    · rw [List.filter_cons_of_neg accepted] at found
      obtain ⟨before, after, rfl, length, same⟩ := ih found
      refine ⟨m :: before, after, rfl, ?_, same⟩
      rw [List.filter_cons_of_neg accepted, length]

end

/-! What the tree has for the walks. -/

section
variable {N : Type} [Fintype N] [DecidableEq N]

namespace Tree

/-- The children of a node, as both kinds of walks over siblings find them. -/
theorem children_facts (tree : Tree N) (root : N) :
    tree.nodes.firstChild root = (tree.nodes.childNodes root).head? ∧
      tree.nodes.lastChild root = (tree.nodes.childNodes root).getLast? ∧
      Follows tree.nodes.nextSibling (tree.nodes.childNodes root) ∧
      Follows tree.nodes.previousSibling (tree.nodes.childNodes root).reverse ∧
      (tree.nodes.childNodes root).length < 2 ^ 31 ∧
      (tree.nodes.childNodes root).length ≤ Fintype.card N ∧
      (root :: tree.nodes.childNodes root).Nodup := by
  obtain ⟨contents, lists⟩ := tree.forest.linked.lists
  have forms := lists.forms root
  have small := tree.small root
  obtain ⟨below, order, inside⟩ := (lists.inOrder_spec tree.forest.acyclic root).below_root
  rw [lists.childNodes_eq]
  refine ⟨forms.head, forms.tail, ?_, ?_, ?_, forms.nodup.length_le_card,
    List.nodup_cons.mpr ⟨fun inside => ?_, forms.nodup⟩⟩
  · exact follows_of_split fun front n rest split => (forms.links front n rest split).1
  · exact follows_reverse_of_split fun front n rest split => (forms.links front n rest split).2
  · have fewer := inside.length_le
    rw [order, List.length_cons] at small
    omega
  · exact tree.forest.acyclic root (.single ((lists.parent root root).mp inside))

/-- The nodes below a node, as both kinds of traversals find them. -/
theorem below_facts (tree : Tree N) (root : N) : ∃ below,
    tree.nodes.inOrder root = root :: below ∧ tree.nodes.firstChild root = below.head? ∧
      Follows (tree.nodes.traverseNextNode (some root)) below ∧
      Follows (tree.nodes.traversePreviousNode (some root)) (root :: below).reverse ∧
      below.length < 2 ^ 31 ∧ (root :: below).length ≤ Fintype.card N ∧
      (root :: below).Nodup := by
  obtain ⟨contents, lists⟩ := tree.forest.linked.lists
  have whole := lists.inOrder_spec tree.forest.acyclic root
  have small := tree.small root
  have nodup := whole.nodup_root (lists.branching tree.forest.acyclic)
  have traverse := fun before n after => @Nodes.Lists.traverse_split N tree.nodes contents root n
    before after _ _ lists tree.forest.acyclic
  have next := follows_of_split fun front n rest split => (traverse front n rest split).1
  have previous := follows_reverse_of_split fun front n rest split => (traverse front n rest split).2
  obtain ⟨below, order, inside⟩ := whole.below_root
  rw [order] at next previous small nodup
  refine ⟨below, order, ?_, next.2, previous, ?_, nodup.length_le_card, nodup⟩
  · rw [inside.head]
    exact (lists.forms root).head
  · rw [List.length_cons] at small
    omega

end Tree

namespace NodeList

/-- The caches say what a walk would find. -/
structure Consistent (list : NodeList N) : Prop where
  item : list.caches.isItemCacheValid = true → ∃ n, list.caches.lastItem = some n ∧
    list.freshItems[list.caches.lastItemOffset.toNat]? = some n
  length : list.caches.isLengthCacheValid = true →
    list.caches.cachedLength.toNat = list.freshItems.length

/-- A call returns what a walk over the tree finds, and never the root. -/
def Agrees (list : NodeList N) : Event N → Prop
  | .length => list.length.1.toNat = list.freshItems.length
  | .item index =>
    (list.item index).1 = list.freshItems[index.toNat]? ∧ (list.item index).1 ≠ some list.rootNode
  | .change .. => True

/-- The largest index is taken for one before the first, and the walk comes to a root that matches. -/
def FindsRoot (list : NodeList N) (index : BitVec 32) : Prop :=
  list.kind = .dynamicNodeList ∧ index = .allOnes 32 ∧ list.accepts list.rootNode = true ∧
    (list.caches.isItemCacheValid = true ∨ ∃ first ∈ list.firstChild, list.accepts first = true)

variable {list : NodeList N}

theorem freshItems_child (kind : list.kind = .childNodeList) :
    list.freshItems = list.tree.nodes.childNodes list.rootNode := by
  rw [freshItems, kind]

theorem freshItems_dynamic (kind : list.kind = .dynamicNodeList) {below : List N}
    (order : list.tree.nodes.inOrder list.rootNode = list.rootNode :: below) :
    list.freshItems = below.filter list.accepts := by
  rw [freshItems, kind, order, List.tail_cons]

theorem freshItems_facts (list : NodeList N) :
    list.freshItems.length < 2 ^ 31 ∧ list.rootNode ∉ list.freshItems := by
  cases kind : list.kind with
  | childNodeList =>
    obtain ⟨-, -, -, -, small, -, nodup⟩ := list.tree.children_facts list.rootNode
    rw [freshItems_child kind]
    exact ⟨small, (List.nodup_cons.mp nodup).1⟩
  | dynamicNodeList =>
    obtain ⟨below, order, -, -, -, small, -, nodup⟩ := list.tree.below_facts list.rootNode
    rw [freshItems_dynamic kind order]
    exact ⟨(List.length_filter_le _ _).trans_lt small,
      fun inside => (List.nodup_cons.mp nodup).1 (List.mem_of_mem_filter inside)⟩

/-- What the loop of `length` counts. -/
theorem counted_eq (list : NodeList N) :
    (match list.kind with
      | .childNodeList =>
        countFrom list.tree.nodes.nextSibling (fun _ => true) (Fintype.card N) list.firstChild 0
      | .dynamicNodeList =>
        countFrom list.traverseNextNode list.accepts (Fintype.card N) list.firstChild 0).toNat =
      list.freshItems.length := by
  have small := list.freshItems_facts.1
  cases kind : list.kind with
  | childNodeList =>
    obtain ⟨first, -, follows, -, -, bound, -⟩ := list.tree.children_facts list.rootNode
    rw [freshItems_child kind] at small ⊢
    dsimp only
    rw [firstChild, first, toNat_countFrom follows bound (by rw [List.countP_true]; omega),
      List.countP_true]
  | dynamicNodeList =>
    obtain ⟨below, order, first, follows, -, -, bound, -⟩ := list.tree.below_facts list.rootNode
    rw [freshItems_dynamic kind order, ← List.countP_eq_length_filter] at small ⊢
    rw [List.length_cons] at bound
    dsimp only
    rw [firstChild, first]
    exact toNat_countFrom follows (by omega) (by omega)

theorem length_agrees (consistent : list.Consistent) :
    list.length.1.toNat = list.freshItems.length ∧ list.length.2.Consistent := by
  by_cases valid : list.caches.isLengthCacheValid = true
  · rw [length, if_pos valid]
    exact ⟨consistent.length valid, consistent⟩
  · rw [length, if_neg valid]
    exact ⟨list.counted_eq, consistent.item, fun _ => list.counted_eq⟩

/-- What is found is remembered at its place. -/
theorem remember_agrees (consistent : list.Consistent) {index : BitVec 32} {item : Option N}
    (found : item = list.freshItems[index.toNat]?) :
    (list.remember item index).1 = list.freshItems[index.toNat]? ∧
      (list.remember item index).2.Consistent := by
  cases item with
  | none => exact ⟨found, consistent⟩
  | some n => exact ⟨found, fun _ => ⟨n, rfl, found.symm⟩, consistent.length⟩

/-! The children. -/

/-- A walk from any position comes to the child at the index. -/
theorem walk_to_index (kind : list.kind = .childNodeList) {index pos : BitVec 32} {n : Option N}
    (here : n = list.freshItems[pos.toNat]?) (known : index < pos → n ≠ none) :
    (if pos ≤ index then walk list.tree.nodes.nextSibling (index - pos).toNat n
      else walk list.tree.nodes.previousSibling (pos - index).toNat n) =
        list.freshItems[index.toNat]? := by
  obtain ⟨-, -, forwards, backwards, -⟩ := list.tree.children_facts list.rootNode
  rw [← freshItems_child kind] at forwards backwards
  by_cases ahead : pos ≤ index
  · have distance : (index - pos).toNat = index.toNat - pos.toNat := BitVec.toNat_sub_of_le ahead
    have le : pos.toNat ≤ index.toNat := ahead
    have start : n = (list.freshItems.drop pos.toNat).head? := by
      rw [here, List.head?_drop]
    have follows : Follows list.tree.nodes.nextSibling (list.freshItems.drop pos.toNat) := by
      rw [← List.take_append_drop pos.toNat list.freshItems] at forwards
      exact forwards.append
    rw [if_pos ahead, start, walk_eq follows, distance, List.getElem?_drop]
    congr 1
    omega
  · have behind : index < pos := BitVec.not_le.mp ahead
    have lt : index.toNat < pos.toNat := behind
    have distance : (pos - index).toNat = pos.toNat - index.toNat :=
      BitVec.toNat_sub_of_le (BitVec.le_of_lt behind)
    obtain ⟨a, some_a⟩ := Option.ne_none_iff_exists'.mp (known behind)
    rw [some_a] at here
    obtain ⟨inside, -⟩ := List.getElem?_eq_some_iff.mp here.symm
    have length : (list.freshItems.take (pos.toNat + 1)).length = pos.toNat + 1 :=
      List.length_take_of_le inside
    have start : n = (list.freshItems.take (pos.toNat + 1)).reverse.head? := by
      rw [some_a, List.head?_reverse, List.getLast?_eq_getElem?, length, Nat.add_sub_cancel,
        List.getElem?_take_of_lt (Nat.lt_succ_self _), here]
    have follows : Follows list.tree.nodes.previousSibling
        (list.freshItems.take (pos.toNat + 1)).reverse := by
      rw [← List.take_append_drop (pos.toNat + 1) list.freshItems, List.reverse_append] at backwards
      exact backwards.append
    rw [if_neg ahead, start, walk_eq follows, distance, List.getElem?_reverse (by omega), length,
      List.getElem?_take_of_lt (by omega)]
    congr 1
    omega

/-- The cached item, or the first child. -/
theorem nearest_spec (kind : list.kind = .childNodeList) (consistent : list.Consistent)
    (index : BitVec 32) : (list.nearest index).1 = list.freshItems[(list.nearest index).2.toNat]? ∧
      (index < (list.nearest index).2 → (list.nearest index).1 ≠ none) := by
  unfold nearest
  split
  · rename_i near
    obtain ⟨n, item, there⟩ := consistent.item near.1
    rw [item, there]
    exact ⟨rfl, fun _ => Option.some_ne_none n⟩
  · obtain ⟨first, -⟩ := list.tree.children_facts list.rootNode
    rw [freshItems_child kind, firstChild, first]
    exact ⟨List.head?_eq_getElem?, fun less => absurd less (Nat.not_lt_zero _)⟩

theorem childItem_agrees (kind : list.kind = .childNodeList) (consistent : list.Consistent)
    (index : BitVec 32) : (list.childItem index).1 = list.freshItems[index.toNat]? ∧
      (list.childItem index).2.Consistent := by
  rw [childItem]
  by_cases same : list.caches.isItemCacheValid = true ∧ index = list.caches.lastItemOffset
  · obtain ⟨n, item, there⟩ := consistent.item same.1
    rw [if_pos same, same.2, there]
    exact ⟨item, consistent⟩
  · rw [if_neg same]
    dsimp only
    by_cases beyond : list.caches.isLengthCacheValid = true ∧ index ≥ list.caches.cachedLength
    · have past : list.freshItems.length ≤ index.toNat := by
        rw [← consistent.length beyond.1]
        exact beyond.2
      rw [if_pos beyond, List.getElem?_eq_none past]
      exact ⟨rfl, consistent⟩
    · rw [if_neg beyond]
      obtain ⟨here, known⟩ := nearest_spec kind consistent index
      by_cases last : list.caches.isLengthCacheValid = true ∧
          (index - (list.nearest index).2).abs > list.caches.cachedLength - 1 - index
      · rw [if_pos last]
        have valid := consistent.length last.1
        have inside : index.toNat < list.freshItems.length := by
          rw [← valid]
          exact Nat.lt_of_not_le fun past => beyond ⟨last.1, past⟩
        have pos : (list.caches.cachedLength - 1).toNat = list.freshItems.length - 1 := by
          rw [← valid]
          refine BitVec.toNat_sub_of_le ?_
          change 1 ≤ list.caches.cachedLength.toNat
          omega
        obtain ⟨-, lastChild, -⟩ := list.tree.children_facts list.rootNode
        rw [← freshItems_child kind] at lastChild
        refine remember_agrees consistent (walk_to_index kind ?_ fun _ => ?_)
        · rw [lastChild, pos, List.getLast?_eq_getElem?]
        · rw [lastChild, ne_eq, List.getLast?_eq_none_iff]
          intro empty
          rw [empty] at inside
          exact absurd inside (Nat.not_lt_zero _)
      · rw [if_neg last]
        exact remember_agrees consistent (walk_to_index kind here known)

/-! The elements below. -/

/-- Counting forwards from an element. -/
theorem forwards_eq (kind : list.kind = .dynamicNodeList) {before rest : List N}
    (split : list.tree.nodes.inOrder list.rootNode = list.rootNode :: (before ++ rest))
    (number : Nat) :
    itemFromCurrent list.traverseNextNode list.accepts (-1) (Fintype.card N) rest.head? number =
      list.freshItems[(before.filter list.accepts).length + number]? := by
  obtain ⟨below, order, -, follows, -, -, bound, -⟩ := list.tree.below_facts list.rootNode
  rw [order] at split
  obtain rfl : below = before ++ rest := (List.cons.inj split).2
  rw [List.length_cons, List.length_append] at bound
  have walked := @itemFromCurrent_eq N list.traverseNextNode list.accepts rest follows.append
    (Fintype.card N) (by omega) (-1) (by decide) number
  rw [Int.neg_neg, Int.one_mul] at walked
  rw [walked, freshItems_dynamic kind order, List.filter_append, List.getElem?_append_right (by omega)]
  congr 1
  omega

/-- Counting backwards from an element, which goes on to the root. -/
theorem backwards_eq {before rest : List N} {n : N}
    (split : list.tree.nodes.inOrder list.rootNode = list.rootNode :: (before ++ n :: rest))
    (number : Nat) :
    itemFromCurrent list.traversePreviousNode list.accepts 1 (Fintype.card N) (some n)
        (-(number : Int)) =
      ((n :: before.reverse).filter list.accepts ++ [list.rootNode].filter list.accepts)[number]? := by
  obtain ⟨below, order, -, -, follows, -, bound, -⟩ := list.tree.below_facts list.rootNode
  rw [order] at split
  obtain rfl : below = before ++ n :: rest := (List.cons.inj split).2
  have parts : (list.rootNode :: (before ++ n :: rest)).reverse =
      rest.reverse ++ ((n :: before.reverse) ++ [list.rootNode]) := by simp
  rw [parts] at follows
  rw [List.length_cons, List.length_append, List.length_cons] at bound
  have walked := @itemFromCurrent_eq N list.traversePreviousNode list.accepts
    ((n :: before.reverse) ++ [list.rootNode]) follows.append (Fintype.card N)
    (by simp only [List.length_append, List.length_cons, List.length_reverse, List.length_nil]; omega)
    1 (by decide) number
  rw [Int.neg_one_mul] at walked
  rw [← List.filter_append, ← walked]
  rfl

/-- Backwards from an element the items before it come, and then the root if it matches. -/
theorem backwards_items (kind : list.kind = .dynamicNodeList) {before rest : List N} {n : N}
    (split : list.tree.nodes.inOrder list.rootNode = list.rootNode :: (before ++ n :: rest))
    (accepted : list.accepts n = true) (number : Nat) :
    ((n :: before.reverse).filter list.accepts ++ [list.rootNode].filter list.accepts)[number]? =
      if number ≤ (before.filter list.accepts).length then
        list.freshItems[(before.filter list.accepts).length - number]?
      else if number = (before.filter list.accepts).length + 1 ∧
        list.accepts list.rootNode = true then some list.rootNode else none := by
  have turned : (n :: before.reverse).filter list.accepts =
      (before.filter list.accepts ++ [n]).reverse := by
    rw [List.filter_cons_of_pos accepted, List.filter_reverse]
    simp
  have items : list.freshItems = before.filter list.accepts ++ [n] ++ rest.filter list.accepts := by
    rw [freshItems_dynamic kind split, List.filter_append, List.filter_cons_of_pos accepted]
    simp
  have length : (before.filter list.accepts ++ [n]).length =
      (before.filter list.accepts).length + 1 := by simp
  rw [turned, items]
  by_cases inside : number ≤ (before.filter list.accepts).length
  · have front : (before.filter list.accepts ++ [n] ++
        rest.filter list.accepts)[(before.filter list.accepts).length - number]? =
          (before.filter list.accepts ++ [n])[(before.filter list.accepts).length - number]? :=
      List.getElem?_append_left (by omega)
    rw [if_pos inside, front, List.getElem?_append_left (by rw [List.length_reverse]; omega),
      List.getElem?_reverse (by omega), length, Nat.add_sub_cancel]
  · rw [if_neg inside, List.getElem?_append_right (by rw [List.length_reverse]; omega),
      List.length_reverse, length]
    by_cases matching : list.accepts list.rootNode = true
    · have only : [list.rootNode].filter list.accepts = [list.rootNode] := by simp [matching]
      rw [only]
      by_cases first : number = (before.filter list.accepts).length + 1
      · rw [if_pos ⟨first, matching⟩, first, Nat.sub_self]
        rfl
      · rw [if_neg fun both => first both.1]
        exact List.getElem?_eq_none (by rw [List.length_singleton]; omega)
    · have none : [list.rootNode].filter list.accepts = [] := by simp [matching]
      rw [none, if_neg fun both => matching both.2]
      rfl

theorem allOnes_iff {offset : BitVec 32} : offset = .allOnes 32 ↔ offset.toNat = 2 ^ 32 - 1 := by
  rw [← BitVec.toNat_inj, BitVec.toNat_allOnes]

/-- What the walk from the cached item finds. -/
theorem walk_from_item (kind : list.kind = .dynamicNodeList) (consistent : list.Consistent)
    (valid : list.caches.isItemCacheValid = true) {offset : BitVec 32}
    (different : offset ≠ list.caches.lastItemOffset)
    (near : offset > list.caches.lastItemOffset ∨ list.caches.lastItemOffset - offset < offset) :
    (if (offset - list.caches.lastItemOffset).toInt < 0 then
      itemFromCurrent list.traversePreviousNode list.accepts 1 (Fintype.card N) list.caches.lastItem
        (offset - list.caches.lastItemOffset).toInt
    else
      itemFromCurrent list.traverseNextNode list.accepts (-1) (Fintype.card N) list.caches.lastItem
        (offset - list.caches.lastItemOffset).toInt) =
      if offset = .allOnes 32 ∧ list.accepts list.rootNode = true then some list.rootNode
      else list.freshItems[offset.toNat]? := by
  obtain ⟨n, item, there⟩ := consistent.item valid
  obtain ⟨below, order, -⟩ := list.tree.below_facts list.rootNode
  have small := list.freshItems_facts.1
  obtain ⟨inside, -⟩ := List.getElem?_eq_some_iff.mp there
  rw [freshItems_dynamic kind order] at there
  obtain ⟨before, after, rfl, length, accepted⟩ := split_of_filter there
  have remaining := BitVec.toInt_eq_toNat_cond (offset - list.caches.lastItemOffset)
  have apart := mt BitVec.toNat_inj.mp different
  have bound := offset.isLt
  rw [BitVec.toNat_sub] at remaining
  rw [item]
  simp only [allOnes_iff]
  generalize (offset - list.caches.lastItemOffset).toInt = r at remaining ⊢
  by_cases backwards : r < 0
  · obtain ⟨number, rfl⟩ : ∃ number : Nat, r = -(number : Int) := ⟨r.natAbs, by omega⟩
    rw [if_pos backwards, backwards_eq order, backwards_items kind order accepted, length]
    by_cases near : number ≤ list.caches.lastItemOffset.toNat
    · have place : list.caches.lastItemOffset.toNat - number = offset.toNat := by
        split at remaining <;> omega
      rw [if_pos near, place, if_neg fun both => by omega]
    · have beyond : list.freshItems[offset.toNat]? = none :=
        List.getElem?_eq_none (by split at remaining <;> omega)
      have last : number = list.caches.lastItemOffset.toNat + 1 ↔ offset.toNat = 2 ^ 32 - 1 := by
        split at remaining <;> omega
      rw [if_neg near, beyond]
      simp only [last]
  · obtain ⟨number, rfl⟩ : ∃ number : Nat, r = (number : Int) := ⟨r.toNat, by omega⟩
    have sides : list.caches.lastItemOffset.toNat < offset.toNat ∨
        (list.caches.lastItemOffset - offset).toNat < offset.toNat := near
    rw [BitVec.toNat_sub] at sides
    have place : list.caches.lastItemOffset.toNat + number = offset.toNat := by
      split at remaining <;> omega
    have walked := forwards_eq kind order number
    rw [List.head?_cons, length, place] at walked
    have below : offset.toNat ≠ 2 ^ 32 - 1 := by
      split at remaining <;> omega
    rw [if_neg backwards, walked, if_neg fun both => below both.1]

/-- What the walk from the first child finds. -/
theorem walk_from_first (kind : list.kind = .dynamicNodeList) (offset : BitVec 32) :
    (if offset.toInt < 0 then
      itemFromCurrent list.traversePreviousNode list.accepts 1 (Fintype.card N) list.firstChild
        offset.toInt
    else
      itemFromCurrent list.traverseNextNode list.accepts (-1) (Fintype.card N) list.firstChild
        offset.toInt) =
      if offset = .allOnes 32 ∧ list.accepts list.rootNode = true ∧
          ∃ first ∈ list.firstChild, list.accepts first = true then some list.rootNode
      else list.freshItems[offset.toNat]? := by
  obtain ⟨below, order, first, -⟩ := list.tree.below_facts list.rootNode
  have small := list.freshItems_facts.1
  have bound := offset.isLt
  have remaining := BitVec.toInt_eq_toNat_cond offset
  simp only [allOnes_iff]
  rw [firstChild, first]
  by_cases backwards : offset.toInt < 0
  · obtain ⟨number, is⟩ : ∃ number : Nat, offset.toInt = -(number : Int) :=
      ⟨offset.toInt.natAbs, by omega⟩
    have beyond : list.freshItems[offset.toNat]? = none :=
      List.getElem?_eq_none (by split at remaining <;> omega)
    have positive : 0 < number := by omega
    have last : offset.toNat = 2 ^ 32 - 1 ↔ number = 1 := by
      split at remaining <;> omega
    rw [if_pos backwards, is, beyond]
    simp only [last]
    cases below with
    | nil =>
      rw [if_neg fun all => by simp at all]
      cases Fintype.card N <;> rfl
    | cons n rest =>
      rw [List.head?_cons, @backwards_eq N _ _ list [] rest n order]
      by_cases accepted : list.accepts n = true
      · have items := @backwards_items N _ _ list kind [] rest n order accepted number
        have outside : ¬number ≤ 0 := by omega
        rw [items, List.filter_nil, List.length_nil, if_neg outside]
        simp [accepted]
      · rw [List.filter_cons_of_neg accepted, if_neg fun all => by simp [accepted] at all]
        exact List.getElem?_eq_none ((List.length_filter_le _ _).trans (by simpa using Nat.succ_le_of_lt positive))
  · obtain ⟨number, is⟩ : ∃ number : Nat, offset.toInt = (number : Int) :=
      ⟨offset.toInt.toNat, by omega⟩
    have place : number = offset.toNat := by
      split at remaining <;> omega
    have inside : offset.toNat ≠ 2 ^ 32 - 1 := by
      split at remaining <;> omega
    have walked := @forwards_eq N _ _ list kind [] below order number
    rw [List.filter_nil, List.length_nil, Nat.zero_add] at walked
    rw [if_neg backwards, is, walked, place, if_neg fun all => inside all.1]

open Classical in
theorem dynamicItem_eq (kind : list.kind = .dynamicNodeList) (consistent : list.Consistent)
    (offset : BitVec 32) :
    (list.dynamicItem offset).1 =
        (if list.FindsRoot offset then some list.rootNode else list.freshItems[offset.toNat]?) ∧
      (¬list.FindsRoot offset → (list.dynamicItem offset).2.Consistent) := by
  have small := list.freshItems_facts.1
  rw [dynamicItem]
  by_cases same : list.caches.isItemCacheValid = true ∧ offset = list.caches.lastItemOffset
  · obtain ⟨n, item, there⟩ := consistent.item same.1
    obtain ⟨inside, -⟩ := List.getElem?_eq_some_iff.mp there
    have apart : ¬list.FindsRoot offset := by
      rintro ⟨-, last, -⟩
      have last := allOnes_iff.mp last
      rw [same.2] at last
      omega
    rw [if_pos same, if_neg apart, same.2, there]
    exact ⟨item, fun _ => consistent⟩
  · rw [if_neg same]
    dsimp only
    have found : (if (list.startOfWalk offset).2 < 0 then
        itemFromCurrent list.traversePreviousNode list.accepts 1 (Fintype.card N)
          (list.startOfWalk offset).1 (list.startOfWalk offset).2
      else
        itemFromCurrent list.traverseNextNode list.accepts (-1) (Fintype.card N)
          (list.startOfWalk offset).1 (list.startOfWalk offset).2) =
        if list.FindsRoot offset then some list.rootNode else list.freshItems[offset.toNat]? := by
      by_cases near : list.caches.isItemCacheValid = true ∧
          (offset > list.caches.lastItemOffset ∨ list.caches.lastItemOffset - offset < offset)
      · have finds : list.FindsRoot offset ↔
            offset = .allOnes 32 ∧ list.accepts list.rootNode = true := by
          constructor
          · exact fun finds => ⟨finds.2.1, finds.2.2.1⟩
          · exact fun both => ⟨kind, both.1, both.2, .inl near.1⟩
        rw [startOfWalk, if_pos near]
        dsimp only
        rw [walk_from_item kind consistent near.1 (fun equal => same ⟨near.1, equal⟩) near.2]
        simp only [finds]
      · have finds : list.FindsRoot offset ↔ offset = .allOnes 32 ∧
            list.accepts list.rootNode = true ∧
              ∃ first ∈ list.firstChild, list.accepts first = true := by
          constructor
          · rintro ⟨-, last, matching, valid | first⟩
            · obtain ⟨n, -, there⟩ := consistent.item valid
              obtain ⟨inside, -⟩ := List.getElem?_eq_some_iff.mp there
              have far := allOnes_iff.mp last
              have further : list.caches.lastItemOffset.toNat < offset.toNat := by omega
              exact absurd ⟨valid, .inl further⟩ near
            · exact ⟨last, matching, first⟩
          · exact fun all => ⟨kind, all.1, all.2.1, .inr all.2.2⟩
        rw [startOfWalk, if_neg near]
        dsimp only
        rw [walk_from_first kind]
        simp only [finds]
    rw [found]
    by_cases finds : list.FindsRoot offset
    · rw [if_pos finds]
      exact ⟨rfl, fun apart => absurd finds apart⟩
    · rw [if_neg finds]
      obtain ⟨item, after⟩ := remember_agrees consistent rfl
      exact ⟨item, fun _ => after⟩

/-- The root is found in place of no item. -/
theorem item_agrees (consistent : list.Consistent) (index : BitVec 32) :
    ((list.item index).1 = list.freshItems[index.toNat]? ∧
        (list.item index).1 ≠ some list.rootNode ↔ ¬list.FindsRoot index) ∧
      (¬list.FindsRoot index → (list.item index).2.Consistent) := by
  have absent : list.freshItems[index.toNat]? ≠ some list.rootNode :=
    fun there => list.freshItems_facts.2 (List.mem_of_getElem? there)
  cases kind : list.kind with
  | childNodeList =>
    obtain ⟨found, after⟩ := childItem_agrees kind consistent index
    have never : ¬list.FindsRoot index := by
      rintro ⟨dynamic, -⟩
      rw [kind] at dynamic
      cases dynamic
    rw [item, kind]
    dsimp only
    rw [found]
    exact ⟨⟨fun _ => never, fun _ => ⟨rfl, absent⟩⟩, fun _ => after⟩
  | dynamicNodeList =>
    obtain ⟨found, after⟩ := dynamicItem_eq kind consistent index
    rw [item, kind]
    dsimp only
    refine ⟨?_, after⟩
    rw [found]
    by_cases finds : list.FindsRoot index
    · rw [if_pos finds]
      exact ⟨fun both => absurd rfl both.2, fun never => absurd finds never⟩
    · rw [if_neg finds]
      exact ⟨fun _ => finds, fun _ => ⟨rfl, absent⟩⟩

/-- The call does not come to a root that matches. -/
def StaysBelow (list : NodeList N) : Event N → Prop
  | .item index => ¬list.FindsRoot index
  | _ => True

theorem agrees_iff (consistent : list.Consistent) (event : Event N) :
    list.Agrees event ↔ list.StaysBelow event := by
  cases event with
  | length => exact ⟨fun _ => trivial, fun _ => (length_agrees consistent).1⟩
  | item index => exact (item_agrees consistent index).1
  | change => exact Iff.rfl

theorem step_consistent (consistent : list.Consistent) (event : Event N)
    (agrees : list.Agrees event) : (list.step event).Consistent := by
  cases event with
  | length => exact (length_agrees consistent).2
  | item index =>
    obtain ⟨same, after⟩ := item_agrees consistent index
    exact after (same.mp agrees)
  | change => exact ⟨(nomatch ·), (nomatch ·)⟩

/-- The list as it is created. -/
def create (kind : ListKind) (rootNode : N) (tree : Tree N) (nodeMatches : N → Bool)
    (lastItemOffset cachedLength : BitVec 32) : NodeList N :=
  { kind, rootNode, tree, nodeMatches, caches := { lastItemOffset, cachedLength } }

/-- Over a whole history of calls and changes, the calls agree with fresh walks exactly when none
comes to a root that matches. -/
theorem agrees_along_iff (kind : ListKind) (rootNode : N) (tree : Tree N) (nodeMatches : N → Bool)
    (lastItemOffset cachedLength : BitVec 32) (events : List (Event N)) :
    Along step Agrees (create kind rootNode tree nodeMatches lastItemOffset cachedLength) events ↔
      Along step StaysBelow (create kind rootNode tree nodeMatches lastItemOffset cachedLength)
        events := by
  have start : (create kind rootNode tree nodeMatches lastItemOffset cachedLength).Consistent :=
    ⟨(nomatch ·), (nomatch ·)⟩
  have all : Along step (fun _ _ => True)
      (create kind rootNode tree nodeMatches lastItemOffset cachedLength) events :=
    along_of_forall (fun _ _ => trivial) _ _
  exact along_iff Consistent (fun _ event consistent _ => agrees_iff consistent event)
    (fun _ event consistent _ agrees => step_consistent consistent event agrees) _ _ start all

end NodeList

end

/-- The largest index finds the root when its first child matches as it does. -/
theorem not_agrees : ∃ tree : Tree (Fin 3), ¬Along NodeList.step NodeList.Agrees
    (NodeList.create .dynamicNodeList 0 tree (fun _ => true) 0 0) [.item 0xFFFFFFFF] := by
  refine ⟨⟨chain, chain_forest, by decide⟩, fun along => along.1.2 ?_⟩
  decide

end WkcBrowser.Dom
