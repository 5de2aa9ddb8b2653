import Mathlib.Data.List.Basic

/-! Finite ordered trees whose nodes are given by their positions, and walks through them: what is visited
when every node names the one after it. -/

namespace OrderedTree

/-- The index of a node among its siblings, that of its parent, and so on to the root. -/
abbrev Position := List Nat

/-- A tree is given by the number of children at each position, and has a bounded depth. -/
structure Tree where
  childCount : Position → Nat
  depth : Nat
  childless : ∀ p, depth ≤ p.length → childCount p = 0

/-- A walk from a node, if there is one, visits these nodes and goes on with the last one. -/
def Visits {α : Type} (next : α → Option α) : Option α → List α → Option α → Prop
  | start, [], exit => start = exit
  | start, x :: xs, exit => start = some x ∧ Visits next (next x) xs exit

section
variable {α : Type} {next : α → Option α}

theorem Visits.append {start middle exit : Option α} {xs ys : List α}
    (first : Visits next start xs middle) (second : Visits next middle ys exit) :
    Visits next start (xs ++ ys) exit := by
  induction xs generalizing start with
  | nil =>
    obtain rfl : start = middle := first
    exact second
  | cons x xs ih => exact ⟨first.1, ih first.2⟩

end

namespace Tree

variable (tree : Tree)

/-- The nodes of a subtree of some height, each before its children. -/
def preorderTo : Nat → Position → List Position
  | 0, p => [p]
  | height + 1, p => p :: (List.range (tree.childCount p)).flatMap fun i => preorderTo height (i :: p)

/-- The nodes of the subtree at a position, each before its children. -/
def preorder (p : Position) : List Position := tree.preorderTo (tree.depth - p.length) p

/-- The nodes below a position, each before its children. -/
def below (p : Position) : List Position :=
  (List.range (tree.childCount p)).flatMap fun i => tree.preorder (i :: p)

section
variable {tree : Tree} {p q : Position}

theorem preorder_eq : tree.preorder p = p :: tree.below p := by
  unfold preorder below
  by_cases deep : tree.depth ≤ p.length
  · rw [tree.childless p deep, Nat.sub_eq_zero_of_le deep]
    rfl
  · have height : tree.depth - p.length = tree.depth - (p.length + 1) + 1 := by omega
    rw [height]
    rfl

/-- To prove something of all nodes, prove it of a node from its children. -/
theorem induction_on {motive : Position → Prop} (p : Position)
    (node : ∀ p, (∀ i, i < tree.childCount p → motive (i :: p)) → motive p) : motive p := by
  by_cases deep : tree.depth ≤ p.length
  · apply node
    intro i child
    rw [tree.childless p deep] at child
    exact absurd child (Nat.not_lt_zero i)
  · exact node p fun i _ => induction_on (i :: p) node
termination_by tree.depth - p.length
decreasing_by
  rw [List.length_cons]
  omega

theorem mem_below : q ∈ tree.below p ↔ ∃ i < tree.childCount p, q ∈ tree.preorder (i :: p) := by
  simp only [below, List.mem_flatMap, List.mem_range]

theorem suffix_of_mem_preorder (mem : q ∈ tree.preorder p) : p <:+ q := by
  induction p using tree.induction_on with
  | node p ih =>
    rw [preorder_eq, List.mem_cons] at mem
    cases mem with
    | inl same => exact same ▸ List.suffix_rfl
    | inr inside =>
      obtain ⟨i, child, inside⟩ := mem_below.mp inside
      exact (List.suffix_cons i p).trans (ih i child inside)

theorem not_mem_below : p ∉ tree.below p := by
  intro inside
  obtain ⟨i, child, inside⟩ := mem_below.mp inside
  have longer := (suffix_of_mem_preorder inside).length_le
  rw [List.length_cons] at longer
  omega

/-- A walk that visits the subtree of each child, and goes on with the next child, visits what is below
a node. -/
theorem visits_below {next : Position → Option Position} {exit : Option Position}
    (children : ∀ i < tree.childCount p, Visits next (some (i :: p)) (tree.preorder (i :: p))
      (if i + 1 < tree.childCount p then some ((i + 1) :: p) else exit)) :
    Visits next (if 0 < tree.childCount p then some (0 :: p) else exit) (tree.below p) exit := by
  have from_ : ∀ left i, i + left = tree.childCount p →
      Visits next (if i < tree.childCount p then some (i :: p) else exit)
        ((List.range' i left).flatMap fun i => tree.preorder (i :: p)) exit := by
    intro left
    induction left with
    | zero =>
      intro i all
      rw [if_neg (by omega)]
      rfl
    | succ left ih =>
      intro i all
      have child : i < tree.childCount p := by omega
      rw [if_pos child, List.range'_succ, List.flatMap_cons]
      exact (children i child).append (ih (i + 1) (by omega))
  have all := from_ (tree.childCount p) 0 (Nat.zero_add _)
  rwa [← List.range_eq_range'] at all

end

end Tree

end OrderedTree
