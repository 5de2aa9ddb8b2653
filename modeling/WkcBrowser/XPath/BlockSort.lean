import WkcBrowser.Dom.DocumentOrder
import WkcBrowser.Lib.Walks
import WkcBrowser.XPath.Precedence

/-! Each block of the matrix of parents is sorted in the order of the document. -/

namespace WkcBrowser.XPath

open Lib Dom

/-! The loops over the rows of a block. -/

section
variable {N : Type} {row : N → List N} {depth : Nat} {front after : Matrix N} {n : N} {ns : List N}

theorem row_place (front : Matrix N) (row : N → List N) (n : N) (ns : List N) (after : Matrix N) :
    (front ++ (n :: ns).map row ++ after)[front.length]? = some (row n) := by
  rw [List.map_cons, List.append_assoc]
  exact getElem?_place front (row n) (ns.map row ++ after)

/-- The block without its first row. -/
theorem block_next (front : Matrix N) (row : N → List N) (n : N) (ns : List N) (after : Matrix N) :
    front ++ (n :: ns).map row ++ after = (front ++ [row n]) ++ ns.map row ++ after := by
  simp

theorem findMinDepth_spec (ns : List N) (front after : Matrix N) (minDepth : Nat) :
    ∃ least, findMinDepth (front ++ ns.map row ++ after) ns.length front.length minDepth = some least ∧
      least ≤ minDepth ∧ (∀ n ∈ ns, least ≤ (row n).length - 1) ∧
        (least = minDepth ∨ ∃ n ∈ ns, least = (row n).length - 1) := by
  induction ns generalizing front minDepth with
  | nil => exact ⟨minDepth, rfl, Nat.le_refl _, by simp, .inl rfl⟩
  | cons n ns ih =>
    obtain ⟨least, found, le, all, is⟩ := ih (front ++ [row n])
      (if minDepth > (row n).length - 1 then (row n).length - 1 else minDepth)
    rw [← block_next, List.length_append, List.length_singleton] at found
    refine ⟨least, ?_, ?_, ?_, ?_⟩
    · rw [List.length_cons, findMinDepth, row_place]
      exact found
    · split at le <;> omega
    · intro m member
      rcases List.mem_cons.mp member with rfl | later
      · split at le <;> omega
      · exact all m later
    · rcases is with same | ⟨m, member, same⟩
      · split at same
        · exact .inr ⟨n, List.mem_cons_self, same⟩
        · exact .inl same
      · exact .inr ⟨m, List.mem_cons_of_mem _ member, same⟩

variable {y : N → N}

theorem nodesWithDepth_eq (front : Matrix N)
    (here : ∀ n ∈ ns, parentWithDepth depth (row n) = some (y n)) :
    nodesWithDepth (front ++ ns.map row ++ after) depth ns.length front.length = some (ns.map y) := by
  induction ns generalizing front with
  | nil => rfl
  | cons n ns ih =>
    have rest := ih (front ++ [row n]) fun m member => here m (List.mem_cons_of_mem _ member)
    rw [← block_next, List.length_append, List.length_singleton] at rest
    rw [List.length_cons, nodesWithDepth, row_place]
    simp only [Option.bind_eq_bind, Option.bind_some, here n List.mem_cons_self, rest]
    rfl

theorem pairwise_of_short {before : N → N → Prop} {group : List N} (short : ¬group.length > 1) :
    group.Pairwise before := by
  match group, short with
  | [], _ => exact .nil
  | [a], _ => exact List.pairwise_singleton _ a
  | _ :: _ :: _, more => simp at more

/-- A block of the nodes is put in an order of them. -/
def SortsBlocks (before : N → N → Prop) (row : N → List N) (admitted : List N → Prop)
    (sortGroup : Nat → Nat → Matrix N → Option (Matrix N)) : Prop :=
  ∀ group front after, admitted group → ∃ sorted : List N, sorted.Perm group ∧
    sorted.Pairwise before ∧
      sortGroup front.length (front.length + group.length) (front ++ group.map row ++ after) =
        some (front ++ sorted.map row ++ after)

variable [DecidableEq N]

theorem allEqual_eq (front : Matrix N) (ancestor : N)
    (here : ∀ n ∈ ns, parentWithDepth depth (row n) = some (y n)) :
    allEqual (front ++ ns.map row ++ after) depth ancestor ns.length front.length =
      some (decide (∀ n ∈ ns, y n = ancestor)) := by
  induction ns generalizing front with
  | nil => simp [allEqual]
  | cons n ns ih =>
    have rest := ih (front ++ [row n]) fun m member => here m (List.mem_cons_of_mem _ member)
    rw [← block_next, List.length_append, List.length_singleton] at rest
    rw [List.length_cons, allEqual, row_place]
    simp only [Option.bind_eq_bind, Option.bind_some, here n List.mem_cons_self]
    by_cases same : ancestor = y n
    · rw [if_neg (not_not.mpr same), rest]
      simp [same]
    · rw [if_pos same]
      simp [Ne.symm same]

/-- A node that is in the block is found, and no other. -/
theorem findRow_spec (front : Matrix N) (heads : ∀ n ∈ ns, (row n)[0]? = some n) (n : N) :
    ∃ found, findRow (front ++ ns.map row ++ after) n ns.length front.length = some found ∧
      (found = none ∧ n ∉ ns ∨
        ∃ before rest, ns = before ++ n :: rest ∧ found = some (front.length + before.length)) := by
  induction ns generalizing front with
  | nil => exact ⟨none, rfl, .inl ⟨rfl, List.not_mem_nil⟩⟩
  | cons m ns ih =>
    rw [List.length_cons, findRow, row_place]
    simp only [Option.bind_eq_bind, Option.bind_some, heads m List.mem_cons_self]
    by_cases same : n = m
    · subst same
      exact ⟨_, if_pos rfl, .inr ⟨[], ns, rfl, rfl⟩⟩
    · rw [if_neg same]
      obtain ⟨found, result, place⟩ := ih (front ++ [row m])
        fun n member => heads n (List.mem_cons_of_mem _ member)
      rw [← block_next, List.length_append, List.length_singleton] at result
      refine ⟨found, result, ?_⟩
      obtain ⟨none, absent⟩ | ⟨before, rest, split, is⟩ := place
      · exact .inl ⟨none, by simp [same, absent]⟩
      · refine .inr ⟨m :: before, rest, by rw [split, List.cons_append], ?_⟩
        rw [is, List.length_append, List.length_singleton, List.length_cons]
        congr 1
        omega

/-- The deepest node that all rows of a block have at its depth, no deeper than some depth. -/
theorem findCommonAncestor_spec (front : Matrix N) {root : N} {limit : Nat}
    (deep : ∀ m ∈ n :: ns, limit + 1 ≤ (row m).length)
    (rooted : ∀ m ∈ n :: ns, parentWithDepth 0 (row m) = some root) :
    ∃ k c, findCommonAncestor (front ++ (n :: ns).map row ++ after) front.length
        (front.length + (n :: ns).length) limit = some (k, c) ∧ k ≤ limit ∧
      (∀ m ∈ n :: ns, parentWithDepth k (row m) = some c) ∧
      (k < limit → ∀ x, ∃ m ∈ n :: ns, parentWithDepth (k + 1) (row m) ≠ some x) := by
  induction limit with
  | zero =>
    refine ⟨0, root, ?_, Nat.le_refl 0, rooted, fun less => absurd less (Nat.not_lt_zero 0)⟩
    rw [findCommonAncestor, row_place]
    simp only [Option.bind_eq_bind, Option.bind_some, rooted n List.mem_cons_self]
  | succ limit ih =>
    let y := fun m => (parentWithDepth (limit + 1) (row m)).getD n
    have here : ∀ m ∈ n :: ns, parentWithDepth (limit + 1) (row m) = some (y m) := by
      intro m member
      obtain ⟨-, a, -, -, -, found⟩ := parentWithDepth_eq (deep m member)
      change _ = some ((parentWithDepth (limit + 1) (row m)).getD n)
      rw [found]
      rfl
    have equal := @allEqual_eq N row (limit + 1) after ns y _ (front ++ [row n]) (y n)
      fun m member => here m (List.mem_cons_of_mem _ member)
    have rows : front.length + (n :: ns).length - (front.length + 1) = ns.length := by
      rw [List.length_cons]
      omega
    rw [← block_next, List.length_append, List.length_singleton] at equal
    rw [findCommonAncestor, row_place, rows]
    simp only [Option.bind_eq_bind, Option.bind_some, here n List.mem_cons_self, equal]
    by_cases same : ∀ m ∈ ns, y m = y n
    · refine ⟨limit + 1, y n, if_pos (decide_eq_true same), Nat.le_refl _, fun m member => ?_,
        fun less => absurd less (Nat.lt_irrefl _)⟩
      rcases List.mem_cons.mp member with rfl | later
      · exact here m member
      · rw [here m member, same m later]
    · obtain ⟨k, c, found, le, all, differ⟩ := ih fun m member => Nat.le_of_succ_le (deep m member)
      refine ⟨k, c, ?_, by omega, all, fun less x => ?_⟩
      · rw [if_neg (by simpa using same), found]
      · by_cases deeper : k < limit
        · exact differ deeper x
        · obtain rfl : k = limit := by omega
          by_cases first : y n = x
          · push Not at same
            obtain ⟨m, member, other⟩ := same
            refine ⟨m, List.mem_cons_of_mem _ member, fun equal => other ?_⟩
            rw [here m (List.mem_cons_of_mem _ member)] at equal
            rw [Option.some.inj equal, first]
          · refine ⟨n, List.mem_cons_self, fun equal => first ?_⟩
            rw [here n List.mem_cons_self] at equal
            exact Option.some.inj equal

/-- When each group is put in order, and the groups are in the order of the siblings, the whole block
is in order. -/
theorem sortGroups_spec {before : N → N → Prop} {admitted : List N → Prop}
    {sortGroup : Nat → Nat → Matrix N → Option (Matrix N)} {nextSibling : N → Option N}
    {parentNodes : List N} (sorts : SortsBlocks before row admitted sortGroup)
    (perm : ∀ group group', group.Perm group' → admitted group → admitted group')
    (cs ns : List N) (front : Matrix N) {steps : Nat} (enough : cs.length ≤ steps)
    (follows : Follows nextSibling cs)
    (here : ∀ n ∈ ns, parentWithDepth depth (row n) = some (y n))
    (inside : ∀ n ∈ ns, y n ∈ cs) (known : ∀ n ∈ ns, y n ∈ parentNodes)
    (groups : ∀ x, 1 < (ns.filter (y · = x)).length → admitted (ns.filter (y · = x)))
    (order : ∀ l x m x' r, cs = l ++ x :: (m ++ x' :: r) → ∀ a ∈ ns, ∀ b ∈ ns, y a = x → y b = x' →
      before a b) :
    ∃ sorted : List N, sorted.Perm ns ∧ sorted.Pairwise before ∧
      sortGroups nextSibling parentNodes depth (front.length + ns.length) sortGroup steps cs.head?
          front.length (front ++ ns.map row ++ after) =
        some (front ++ sorted.map row ++ after) := by
  induction cs generalizing ns front steps with
  | nil =>
    have empty : ns = [] := List.eq_nil_iff_forall_not_mem.mpr fun n member =>
      nomatch inside n member
    subst empty
    refine ⟨[], .refl _, .nil, ?_⟩
    cases steps <;> rfl
  | cons x cs ih =>
    rw [List.length_cons] at enough
    obtain ⟨steps, rfl⟩ : ∃ more, steps = more + 1 := ⟨steps - 1, by omega⟩
    rw [List.head?_cons, sortGroups, follows.1]
    by_cases has : x ∈ parentNodes
    · rw [if_pos has]
      obtain ⟨others, rest, gathered⟩ := @gather_eq (List N) N
        (fun row => (fun p => decide (p = x)) <$> parentWithDepth depth row)
        (fun n => decide (y n = x)) row front [] ns after
        (fun n member => by rw [here n member]; rfl)
      rw [List.nil_append] at rest
      simp only [List.length_nil, Nat.add_zero, List.map_nil, List.append_nil] at gathered
      rw [Nat.add_sub_cancel_left, gathered]
      simp only [Option.bind_eq_bind, Option.bind_some, Nat.add_sub_cancel_left]
      have sortedGroup : ∃ group : List N, group.Perm (ns.filter (y · = x)) ∧ group.Pairwise before ∧
          ∀ next : Matrix N → Option (Matrix N), (if (ns.filter (y · = x)).length > 1 then
            (sortGroup front.length (front.length + (ns.filter (y · = x)).length)
              (front ++ (ns.filter (y · = x)).map row ++ others.map row ++ after)).bind next
          else next (front ++ (ns.filter (y · = x)).map row ++ others.map row ++ after)) =
            next (front ++ group.map row ++ others.map row ++ after) := by
        by_cases more : (ns.filter (y · = x)).length > 1
        · obtain ⟨group, same, sorted, result⟩ :=
            sorts _ front (others.map row ++ after) (groups x more)
          refine ⟨group, same, sorted, fun next => ?_⟩
          rw [← List.append_assoc, ← List.append_assoc] at result
          rw [if_pos more, result, Option.bind_some]
        · exact ⟨_, .refl _, pairwise_of_short more, fun next => if_neg more⟩
      obtain ⟨group, same, sorted, result⟩ := sortedGroup
      have ofGroup : ∀ n ∈ group, n ∈ ns ∧ y n = x := by
        intro n member
        simpa using same.mem_iff.mp member
      have ofOthers : ∀ n ∈ others, n ∈ ns ∧ y n ≠ x := by
        intro n member
        simpa using rest.mem_iff.mp member
      have admittedRest : ∀ x', 1 < (others.filter (y · = x')).length →
          admitted (others.filter (y · = x')) := by
        intro x' more
        have kept := rest.filter fun n => decide (y n = x')
        rw [List.filter_filter] at kept
        by_cases other : x' = x
        · have none : (others.filter (y · = x')) = [] := by
            rw [← List.perm_nil]
            simpa [other] using kept
          rw [none] at more
          exact absurd more (by simp)
        · have same : ns.filter (fun n => decide (y n = x') && !decide (y n = x)) =
              ns.filter (y · = x') := by
            refine List.filter_congr fun n _ => ?_
            by_cases is : y n = x'
            · simp [is, other]
            · simp [is]
          rw [same] at kept
          rw [kept.length_eq] at more
          exact perm _ _ kept.symm (groups x' more)
      obtain ⟨sortedRest, perm', sorted', result'⟩ := @ih others (front ++ group.map row)
        steps (by omega)
        follows.2 (fun n member => here n (ofOthers n member).1)
        (fun n member => (List.mem_cons.mp (inside n (ofOthers n member).1)).resolve_left
          (ofOthers n member).2)
        (fun n member => known n (ofOthers n member).1)
        admittedRest
        (fun l x' m x'' r split a ofA b ofB => order (x :: l) x' m x'' r (by rw [split, List.cons_append])
          a (ofOthers a ofA).1 b (ofOthers b ofB).1)
      have whole : group.length + others.length = ns.length := by
        rw [same.length_eq, rest.length_eq]
        exact (List.length_append ..).symm.trans (List.filter_append_perm _ ns).length_eq
      refine ⟨group ++ sortedRest, ?_, ?_, ?_⟩
      · exact (same.append (perm'.trans rest)).trans (List.filter_append_perm _ ns)
      · refine List.pairwise_append.mpr ⟨sorted, sorted', fun a ofA b ofB => ?_⟩
        obtain ⟨member, other⟩ := ofOthers b (perm'.mem_iff.mp ofB)
        have later := (List.mem_cons.mp (inside b member)).resolve_left other
        obtain ⟨m, r, split⟩ := List.mem_iff_append.mp later
        exact order [] x m (y b) r (by rw [split, List.nil_append]) a (ofGroup a ofA).1 b member
          (ofGroup a ofA).2 rfl
      · have stop : (front ++ group.map row).length + others.length = front.length + ns.length := by
          rw [List.length_append, List.length_map]
          omega
        have place : front.length + (ns.filter (y · = x)).length = (front ++ group.map row).length := by
          rw [List.length_append, List.length_map, same.length_eq]
        rw [result, place, ← stop, result', List.map_append, List.append_assoc front]
    · rw [if_neg has]
      refine ih ns front (by omega) follows.2 here (fun n member => ?_) known groups
        fun l x' m x'' r split => ?_
      · rcases List.mem_cons.mp (inside n member) with same | later
        · exact absurd (same ▸ known n member) has
        · exact later
      · exact order (x :: l) x' m x'' r (by rw [split, List.cons_append])

end

/-! The whole of `sortBlock`. -/

section
variable {N : Type} [Fintype N] {tree : AttributedNodes N} {root : N} {row : N → List N} {may : Bool}
  {levels : Nat}

/-- The nodes of a block that `sortBlock` is called for. -/
structure Admitted (tree : AttributedNodes N) (root : N) (row : N → List N) (may : Bool)
    (levels : Nat) (ns : List N) : Prop where
  nodup : ns.Nodup
  two : 2 ≤ ns.length
  within : ns.length ≤ levels
  rows : ∀ n ∈ ns, tree.Row root n (row n)
  attributes : may = false → ∀ n ∈ ns, tree.isAttributeNode n = false

theorem Admitted.perm {ns ns' : List N} (perm : ns.Perm ns')
    (admitted : Admitted tree root row may levels ns) : Admitted tree root row may levels ns' where
  nodup := perm.nodup_iff.mp admitted.nodup
  two := perm.length_eq ▸ admitted.two
  within := perm.length_eq ▸ admitted.within
  rows := fun n member => admitted.rows n (perm.mem_iff.mpr member)
  attributes := fun none n member => admitted.attributes none n (perm.mem_iff.mpr member)

/-- A smaller part of an admitted block. -/
theorem Admitted.part {ns part : List N} (admitted : Admitted tree root row may (levels + 1) ns)
    (sub : part.Subperm ns) (two : 2 ≤ part.length) (fewer : part.length < ns.length) :
    Admitted tree root row may levels part where
  nodup := by
    obtain ⟨same, perm, sublist⟩ := sub
    exact perm.nodup_iff.mp (sublist.nodup admitted.nodup)
  two
  within := by
    have := admitted.within
    omega
  rows := fun n member => admitted.rows n (sub.subset member)
  attributes := fun none n member => admitted.attributes none n (sub.subset member)

/-- The least depth of a block is that of one of its nodes. -/
theorem Admitted.minDepth (isRoot : tree.IsRoot root) {ns : List N}
    (admitted : Admitted tree root row may levels ns) (front after : Matrix N) :
    ∃ least, findMinDepth (front ++ ns.map row ++ after) ns.length front.length (2 ^ 32 - 1) =
        some least ∧ (∀ n ∈ ns, least + 1 ≤ (row n).length) ∧
          ∃ n ∈ ns, (row n).length = least + 1 := by
  obtain ⟨least, found, -, all, is⟩ := findMinDepth_spec ns front after (2 ^ 32 - 1)
  have positive : ∀ n ∈ ns, 1 ≤ (row n).length := by
    intro n member
    obtain ⟨above, split⟩ := (admitted.rows n member).head
    rw [split, List.length_cons]
    omega
  have two := admitted.two
  obtain ⟨n, first⟩ : ∃ n, n ∈ ns := List.exists_mem_of_length_pos (by omega)
  refine ⟨least, found, fun n member => ?_, ?_⟩
  · have := all n member
    have := positive n member
    omega
  · rcases is with largest | ⟨n, member, same⟩
    · have := all n first
      have := (admitted.rows n first).length_le isRoot
      have := tree.small
      omega
    · have := positive n member
      exact ⟨n, member, by omega⟩

/-- What is left of a block after its common ancestor, or its attribute nodes, is sorted. -/
theorem sort_rest {ns first others : List N} {sortGroup : Nat → Nat → Matrix N → Option (Matrix N)}
    (sorts : SortsBlocks tree.Precedes row (Admitted tree root row may levels) sortGroup)
    (admitted : Admitted tree root row may (levels + 1) ns) (perm : (first ++ others).Perm ns)
    (filled : first ≠ []) (sortedFirst : first.Pairwise tree.Precedes)
    (before : ∀ a ∈ first, ∀ b ∈ others, tree.Precedes a b) (front after : Matrix N) :
    ∃ sorted : List N, sorted.Perm ns ∧ sorted.Pairwise tree.Precedes ∧
      (if others.length > 1 then
        sortGroup (front.length + first.length) (front.length + ns.length)
          (front ++ first.map row ++ others.map row ++ after)
      else some (front ++ first.map row ++ others.map row ++ after)) =
        some (front ++ sorted.map row ++ after) := by
  have whole := perm.length_eq
  have positive := List.length_pos_iff.mpr filled
  rw [List.length_append] at whole
  by_cases more : others.length > 1
  · have sub : others.Subperm ns := (List.sublist_append_right first others).subperm.trans perm.subperm
    obtain ⟨sorted, same, inOrder, result⟩ := sorts others (front ++ first.map row) after
      (admitted.part sub more (by omega))
    refine ⟨first ++ sorted, (same.append_left first).trans perm,
      List.pairwise_append.mpr ⟨sortedFirst, inOrder, fun a ofA b ofB => ?_⟩, ?_⟩
    · exact before a ofA b (same.mem_iff.mp ofB)
    · rw [List.length_append, List.length_map, Nat.add_assoc front.length, whole] at result
      rw [if_pos more, result, List.map_append, List.append_assoc front]
  · refine ⟨first ++ others, perm,
      List.pairwise_append.mpr ⟨sortedFirst, pairwise_of_short more, before⟩, ?_⟩
    rw [if_neg more, List.map_append, List.append_assoc front]

variable [DecidableEq N]

/-- The common ancestor is one of the nodes. -/
theorem sort_ancestor {ns before rest : List N} {c : N} {depth : Nat}
    (sorts : SortsBlocks tree.Precedes row (Admitted tree root row may levels)
      (sortBlock tree may levels))
    (admitted : Admitted tree root row may (levels + 1) ns)
    (common : ∀ n ∈ ns, parentWithDepth depth (row n) = some c) (split : ns = before ++ c :: rest)
    (front after : Matrix N) :
    ∃ sorted : List N, sorted.Perm ns ∧ sorted.Pairwise tree.Precedes ∧
      (do
        let parentMatrix ← swapAt (front ++ ns.map row ++ after) (front.length + before.length)
          front.length
        if front.length + 2 < front.length + ns.length then
          sortBlock tree may levels (front.length + 1) (front.length + ns.length) parentMatrix
        else some parentMatrix) = some (front ++ sorted.map row ++ after) := by
  obtain ⟨others, perm, swapped⟩ := swapAt_front row front before c rest after
  have whole : ([c] ++ others).Perm ns := by
    rw [split]
    exact (perm.cons c).trans List.perm_middle.symm
  have apart : c ∉ others := (List.nodup_cons.mp (whole.nodup_iff.mpr admitted.nodup)).1
  have precedes : ∀ a ∈ [c], ∀ b ∈ others, tree.Precedes a b := by
    intro a ofA b ofB
    rw [List.mem_singleton.mp ofA]
    have member : b ∈ ns := whole.mem_iff.mp (List.mem_append_right _ ofB)
    exact (admitted.rows b member).precedes (common b member) fun same => apart (same ▸ ofB)
  obtain ⟨sorted, same, inOrder, result⟩ := sort_rest sorts admitted whole (by simp)
    (List.pairwise_singleton _ c) precedes front after
  refine ⟨sorted, same, inOrder, ?_⟩
  have length := whole.length_eq
  have more : front.length + 2 < front.length + ns.length ↔ others.length > 1 := by
    rw [List.length_append, List.length_singleton] at length
    omega
  rw [← result, split, swapped, ← split]
  simp only [Option.bind_eq_bind, Option.bind_some, more]
  simp

/-- Some nodes are attribute nodes of the common ancestor. -/
theorem sort_attributes {ns attributes others : List N} {c : N} {depth : Nat}
    (sorts : SortsBlocks tree.Precedes row (Admitted tree root row may levels)
      (sortBlock tree may levels))
    (admitted : Admitted tree root row may (levels + 1) ns)
    (common : ∀ n ∈ ns, parentWithDepth depth (row n) = some c)
    (deep : ∀ n ∈ ns, depth + 1 < (row n).length) (perm : (attributes ++ others).Perm ns)
    (owned : ∀ n ∈ attributes, tree.isAttributeNode n = true ∧ tree.Up n c)
    (filled : attributes ≠ []) (front after : Matrix N) :
    ∃ sorted : List N, sorted.Perm ns ∧ sorted.Pairwise tree.Precedes ∧
      (if others.length > 1 then
        sortBlock tree may levels (front.length + attributes.length) (front.length + ns.length)
          (front ++ attributes.map row ++ others.map row ++ after)
      else some (front ++ attributes.map row ++ others.map row ++ after)) =
        some (front ++ sorted.map row ++ after) := by
  have nodup := perm.nodup_iff.mpr admitted.nodup
  rw [List.nodup_append] at nodup
  refine sort_rest sorts admitted perm filled ?_ ?_ front after
  · refine nodup.1.imp_of_mem fun ofA ofB different => ?_
    obtain ⟨isAttribute, up⟩ := owned _ ofA
    obtain ⟨-, also⟩ := owned _ ofB
    exact .apart up also different .refl .refl (.inl isAttribute)
  · intro a ofA b ofB
    obtain ⟨isAttribute, up⟩ := owned a ofA
    have member : b ∈ ns := perm.mem_iff.mp (List.mem_append_right _ ofB)
    obtain ⟨y, -, step, under, only⟩ := (admitted.rows b member).lower (common b member) (deep b member)
    refine .apart up step ?_ .refl under (.inl isAttribute)
    rintro rfl
    exact nodup.2.2 a ofA b ofB (only isAttribute)

/-- All nodes are below children of the common ancestor. -/
theorem sort_children {ns : List N} {c : N} {depth : Nat}
    (sorts : SortsBlocks tree.Precedes row (Admitted tree root row may levels)
      (sortBlock tree may levels))
    (admitted : Admitted tree root row may (levels + 1) ns)
    (common : ∀ n ∈ ns, parentWithDepth depth (row n) = some c)
    (deep : ∀ n ∈ ns, depth + 1 < (row n).length)
    (differ : ∀ x, ∃ n ∈ ns, parentWithDepth (depth + 1) (row n) ≠ some x)
    (unowned : ∀ n ∈ ns, tree.Up n c → tree.isAttributeNode n = false) (front after : Matrix N) :
    ∃ sorted : List N, sorted.Perm ns ∧ sorted.Pairwise tree.Precedes ∧
      (do
        let parentNodes ← nodesWithDepth (front ++ ns.map row ++ after) (depth + 1) ns.length
          front.length
        sortGroups tree.nodes.nextSibling parentNodes (depth + 1) (front.length + ns.length)
          (sortBlock tree may levels) (Fintype.card N) (tree.nodes.firstChild c) front.length
          (front ++ ns.map row ++ after)) = some (front ++ sorted.map row ++ after) := by
  let y := fun n => (parentWithDepth (depth + 1) (row n)).getD c
  have lower : ∀ n ∈ ns, parentWithDepth (depth + 1) (row n) = some (y n) ∧ tree.Up (y n) c ∧
      Relation.ReflTransGen tree.Up n (y n) ∧ tree.nodes.parentNode (y n) = some c := by
    intro n member
    obtain ⟨a, here, step, under, only⟩ := (admitted.rows n member).lower (common n member) (deep n member)
    have same : y n = a := by
      change (parentWithDepth (depth + 1) (row n)).getD c = a
      rw [here]
      rfl
    rw [same]
    refine ⟨here, step, under, ?_⟩
    have plain : tree.isAttributeNode a = false := by
      by_contra isAttribute
      rw [Bool.not_eq_false] at isAttribute
      obtain rfl := only isAttribute
      rw [unowned a member step] at isAttribute
      cases isAttribute
    rw [AttributedNodes.Up, AttributedNodes.up, plain] at step
    exact step
  obtain ⟨contents, lists⟩ := tree.forest.linked.lists
  have forms := lists.forms c
  have collected := @nodesWithDepth_eq N row (depth + 1) after ns y front
    fun n member => (lower n member).1
  have groups : ∀ x, 1 < (ns.filter (y · = x)).length →
      Admitted tree root row may levels (ns.filter (y · = x)) := by
    intro x more
    refine admitted.part List.filter_sublist.subperm more ?_
    obtain ⟨n, member, other⟩ := differ x
    refine List.length_filter_lt_length_iff_exists.mpr ⟨n, member, fun same => other ?_⟩
    rw [(lower n member).1, of_decide_eq_true same]
  have order : ∀ l x m x' r, contents c = l ++ x :: (m ++ x' :: r) → ∀ a ∈ ns, ∀ b ∈ ns, y a = x →
      y b = x' → tree.Precedes a b := by
    rintro l x m x' r split a ofA b ofB rfl rfl
    obtain ⟨-, first, underFirst, -⟩ := lower a ofA
    obtain ⟨-, second, underSecond, -⟩ := lower b ofB
    have nodup := forms.nodup
    rw [split] at nodup
    refine .apart first second ?_ underFirst underSecond (.inr ⟨l, m, r, ?_⟩)
    · have apart := (List.nodup_cons.mp (List.nodup_append.mp nodup).2.1).1
      exact fun same => apart (same ▸ List.mem_append_right _ List.mem_cons_self)
    · rw [lists.childNodes_eq, split]
  obtain ⟨sorted, perm, inOrder, result⟩ := @sortGroups_spec N row (depth + 1) after y _ tree.Precedes
    (Admitted tree root row may levels) (sortBlock tree may levels) tree.nodes.nextSibling (ns.map y)
    sorts (fun _ _ => Admitted.perm) (contents c) ns front (Fintype.card N) forms.nodup.length_le_card
    (follows_of_split fun before n rest split => (forms.links before n rest split).1)
    (fun n member => (lower n member).1)
    (fun n member => (lists.parent c (y n)).mpr (lower n member).2.2.2)
    (fun n member => List.mem_map_of_mem member) groups order
  refine ⟨sorted, perm, inOrder, ?_⟩
  rw [collected]
  simp only [Option.bind_eq_bind, Option.bind_some]
  rw [← result, ← forms.head]
  rfl

/-- `sortBlock` puts every block in the order of the document. -/
theorem sortBlock_sorts (isRoot : tree.IsRoot root) (levels : Nat) :
    SortsBlocks tree.Precedes row (Admitted tree root row may levels) (sortBlock tree may levels) := by
  induction levels with
  | zero =>
    intro ns front after admitted
    have := admitted.two
    have := admitted.within
    omega
  | succ levels ih =>
    intro ns front after admitted
    obtain ⟨least, found, deep, shortest, ofShortest, length⟩ := admitted.minDepth isRoot front after
    have rooted : ∀ n ∈ ns, parentWithDepth 0 (row n) = some root :=
      fun n member => (admitted.rows n member).rooted
    obtain ⟨k, c, ancestor, le, common, differ⟩ : ∃ k c, findCommonAncestor
        (front ++ ns.map row ++ after) front.length (front.length + ns.length) least = some (k, c) ∧
        k ≤ least ∧ (∀ n ∈ ns, parentWithDepth k (row n) = some c) ∧
        (k < least → ∀ x, ∃ n ∈ ns, parentWithDepth (k + 1) (row n) ≠ some x) := by
      cases ns with
      | nil => exact absurd admitted.two (by simp)
      | cons n ns => exact findCommonAncestor_spec front deep rooted
    rw [sortBlock, Nat.add_sub_cancel_left, found]
    simp only [Option.bind_eq_bind, Option.bind_some, ancestor]
    by_cases whole : k = least
    · have heads : ∀ n ∈ ns, (row n)[0]? = some n := by
        intro n member
        obtain ⟨above, split⟩ := (admitted.rows n member).head
        rw [split]
        rfl
      have inside : c ∈ ns := by
        obtain ⟨above, split⟩ := (admitted.rows shortest ofShortest).head
        have here := parentWithDepth_split [] shortest above
        have depth : above.length = k := by
          rw [split, List.length_cons] at length
          omega
        have same := common shortest ofShortest
        rw [List.nil_append, depth, ← split, same] at here
        rw [Option.some.inj here]
        exact ofShortest
      obtain ⟨place, search, absent | ⟨before, rest, split, is⟩⟩ :=
        @findRow_spec N row after ns _ front heads c
      · exact absurd inside absent.2
      · obtain ⟨sorted, perm, inOrder, result⟩ := sort_ancestor ih admitted common split front after
        refine ⟨sorted, perm, inOrder, ?_⟩
        rw [if_pos whole, search, is]
        exact result
    · rw [if_neg whole]
      have below : ∀ n ∈ ns, k + 1 < (row n).length := by
        intro n member
        have := deep n member
        omega
      have differs := differ (by omega)
      by_cases attributed : may = true ∧ tree.isElementNode c = true
      · rw [if_pos attributed]
        obtain ⟨others, rest, gathered⟩ := @gather_eq (List N) N
          (fun row => row[0]?.bind fun a =>
            some (decide (tree.isAttributeNode a = true ∧ tree.ownerElement a = some c)))
          (fun n => decide (tree.isAttributeNode n = true ∧ tree.ownerElement n = some c)) row front []
          ns after (fun n member => by
            obtain ⟨above, split⟩ := (admitted.rows n member).head
            rw [split]
            rfl)
        rw [List.nil_append] at rest
        simp only [List.length_nil, Nat.add_zero, List.map_nil, List.append_nil] at gathered
        have perm := (List.Perm.append_left (ns.filter fun n =>
          decide (tree.isAttributeNode n = true ∧ tree.ownerElement n = some c)) rest).trans
            (List.filter_append_perm _ ns)
        have owned : ∀ n ∈ ns.filter fun n =>
            decide (tree.isAttributeNode n = true ∧ tree.ownerElement n = some c),
            tree.isAttributeNode n = true ∧ tree.Up n c := by
          intro n member
          obtain ⟨isAttribute, owner⟩ := of_decide_eq_true (List.mem_filter.mp member).2
          refine ⟨isAttribute, ?_⟩
          rw [AttributedNodes.Up, AttributedNodes.up, if_pos isAttribute, owner]
        have length := perm.length_eq
        rw [gathered, Option.bind_some]
        dsimp only
        generalize attributes_eq : (ns.filter fun n =>
          decide (tree.isAttributeNode n = true ∧ tree.ownerElement n = some c)) = attributes at *
        by_cases filled : attributes = []
        · subst filled
          rw [List.nil_append] at perm length
          obtain ⟨sorted, same, inOrder, result⟩ := sort_children ih (admitted.perm perm.symm)
            (fun n member => common n (perm.mem_iff.mp member))
            (fun n member => below n (perm.mem_iff.mp member))
            (fun x => by
              obtain ⟨n, member, other⟩ := differs x
              exact ⟨n, perm.mem_iff.mpr member, other⟩)
            (fun n member up => by
              by_contra isAttribute
              rw [Bool.not_eq_false] at isAttribute
              rw [AttributedNodes.Up, AttributedNodes.up, if_pos isAttribute] at up
              have unowned := (List.mem_filter.mp (rest.mem_iff.mp member)).2
              simp [isAttribute, up] at unowned) front after
          refine ⟨sorted, same.trans perm, inOrder, ?_⟩
          rw [List.length_nil, Nat.add_zero, if_neg (not_not.mpr rfl), ← length, List.map_nil,
            List.append_nil]
          exact result
        · have positive := List.length_pos_iff.mpr filled
          obtain ⟨sorted, same, inOrder, result⟩ :=
            sort_attributes ih admitted common below perm owned filled front after
          refine ⟨sorted, same, inOrder, ?_⟩
          have left : front.length + ns.length - (front.length + attributes.length) = others.length := by
            rw [List.length_append] at length
            omega
          rw [if_pos (by omega), left]
          exact result
      · rw [if_neg attributed, if_neg (not_not.mpr rfl)]
        refine sort_children ih admitted common below differs (fun n member up => ?_) front after
        by_contra isAttribute
        rw [Bool.not_eq_false] at isAttribute
        rw [AttributedNodes.Up, AttributedNodes.up, if_pos isAttribute] at up
        refine attributed ⟨?_, decide_eq_true (tree.owner n c up)⟩
        by_contra none
        rw [admitted.attributes (Bool.not_eq_true _ ▸ none) n member] at isAttribute
        cases isAttribute

/-! The whole of `sort`. -/

namespace NodeSet

variable {set : NodeSet N}

theorem mapM_eq {α β : Type} {f : α → Option β} {g : α → β} {items : List α}
    (found : ∀ a ∈ items, f a = some (g a)) : items.mapM f = some (items.map g) := by
  induction items with
  | nil => rfl
  | cons a items ih =>
    rw [List.mapM_cons, found a List.mem_cons_self,
      ih fun b member => found b (List.mem_cons_of_mem _ member)]
    rfl

/-- A set of nodes of one tree is put in the order of the document. -/
theorem sort_inOrder (isRoot : tree.IsRoot root) (belong : ∀ n ∈ set.nodes, tree.Belongs root n)
    (nodup : set.nodes.Nodup) (marked : set.isSorted = true → set.nodes.Pairwise tree.Precedes) :
    ∃ sorted, set.sort tree = some sorted ∧ sorted.nodes.Perm set.nodes ∧
      sorted.nodes.Pairwise tree.Precedes := by
  rw [sort]
  by_cases isSorted : set.isSorted = true
  · rw [if_pos isSorted]
    exact ⟨set, rfl, .refl _, marked isSorted⟩
  · rw [if_neg isSorted]
    by_cases short : set.nodes.length < 2
    · rw [if_pos short]
      exact ⟨_, rfl, .refl _, pairwise_of_short (Nat.not_lt.mpr (Nat.le_of_lt_succ short))⟩
    · rw [if_neg short]
      let row := fun n => (tree.parentsVector n).getD []
      have rows : ∀ n ∈ set.nodes, tree.Row root n (row n) ∧ tree.parentsVector n = some (row n) := by
        intro n member
        obtain ⟨_, is, found⟩ := (belong n member).hasRow isRoot
        have same : row n = _ := congrArg (·.getD []) found
        rw [same]
        exact ⟨is, found⟩
      have admitted : Admitted tree root row (set.nodes.any tree.isAttributeNode) set.nodes.length
          set.nodes :=
        { nodup
          two := by omega
          within := Nat.le_refl _
          rows := fun n member => (rows n member).1
          attributes := fun none n member => by
            simpa using List.any_eq_false.mp none n member }
      obtain ⟨sorted, perm, inOrder, result⟩ :=
        sortBlock_sorts isRoot set.nodes.length set.nodes [] [] admitted
      simp only [List.length_nil, Nat.zero_add, List.nil_append, List.append_nil] at result
      have heads : (sorted.map row).mapM (·[0]?) = some sorted := by
        have head : ∀ n ∈ sorted, (row n)[0]? = some n := by
          intro n member
          obtain ⟨above, split⟩ := (rows n (perm.mem_iff.mp member)).1.head
          rw [split]
          rfl
        rw [List.mapM_map]
        refine (@mapM_eq N N ((·[0]?) ∘ row) id sorted head).trans ?_
        rw [List.map_id]
      refine ⟨{ set with nodes := sorted }, ?_, perm, inOrder⟩
      rw [mapM_eq fun n member => (rows n member).2]
      simp only [Option.bind_eq_bind, Option.bind_some, result, heads]

end NodeSet

end

/-- Three elements, each in the one before it, without attributes. -/
def chainNodes : AttributedNodes (Fin 3) where
  nodes := chain
  ownerElement _ := none
  forest := chain_forest
  unlinked _ isAttribute := nomatch isAttribute
  owner _ _ owned := nomatch owned
  small := by decide

theorem NodeSet.sort_inOrder_chain : ∃ sorted, NodeSet.sort chainNodes ⟨[2, 0, 1], false⟩ = some sorted ∧
    sorted.nodes.Perm [2, 0, 1] ∧ sorted.nodes.Pairwise chainNodes.Precedes := by
  have isRoot : chainNodes.IsRoot 0 := ⟨rfl, rfl⟩
  have belong : ∀ n ∈ [2, 0, 1], chainNodes.Belongs 0 n := by
    intro n member
    have one : chainNodes.nodes.Up 1 0 := rfl
    have two : chainNodes.nodes.Up 2 1 := rfl
    rcases List.mem_cons.mp member with rfl | later
    · exact .head two (.single one)
    · rcases List.mem_cons.mp later with rfl | last
      · exact Relation.ReflTransGen.refl
      · obtain rfl := List.mem_singleton.mp last
        exact .single one
  exact NodeSet.sort_inOrder isRoot belong (by decide) (nomatch ·)

end WkcBrowser.XPath
