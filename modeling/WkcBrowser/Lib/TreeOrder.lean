import Mathlib.Data.Fintype.Card
import Mathlib.Logic.Relation

/-! Trees given by the children of each node, and the order that lists each node before those below
it. -/

namespace WkcBrowser.Lib

section
variable {α : Type} (children : α → List α)

def ChildOf (child parent : α) : Prop := child ∈ children parent

/-- Every node is in one list of children at most, once, and never below itself. -/
structure Branching : Prop where
  nodup : ∀ n, (children n).Nodup
  single : ∀ c a b, c ∈ children a → c ∈ children b → a = b
  acyclic : ∀ n, ¬Relation.TransGen (ChildOf children) n n

/-- The second list has the nodes of the first and all nodes below them, each before its children. -/
inductive Preorder : List α → List α → Prop where
  | nil : Preorder [] []
  | cons {n : α} {below rest others : List α} (inside : Preorder (children n) below)
      (later : Preorder rest others) : Preorder (n :: rest) (n :: below ++ others)

/-- The order of a tree that has some levels. -/
def preorderTo : Nat → α → List α
  | 0, _ => []
  | levels + 1, n => n :: (children n).flatMap (preorderTo levels)

/-- The nodes of a tree that has some levels, each after those below it. -/
def postorderTo : Nat → α → List α
  | 0, _ => []
  | levels + 1, n => (children n).flatMap (postorderTo levels) ++ [n]

/-- A node of the tree with what is before it, below it and after it. -/
inductive Sited (root : α) : α → List α → List α → List α → Prop where
  | root {below : List α} (inside : Preorder children (children root) below) :
      Sited root root [] below []
  | child {parent c : α} {left right before earlier below later after : List α}
      (up : Sited root parent before (earlier ++ c :: below ++ later) after)
      (split : children parent = left ++ c :: right) (first : Preorder children left earlier)
      (inside : Preorder children (children c) below) (last : Preorder children right later) :
      Sited root c (before ++ parent :: earlier) below (later ++ after)

end

variable {α : Type} {children : α → List α}

theorem postorderTo_perm (levels : Nat) (n : α) :
    (postorderTo children levels n).Perm (preorderTo children levels n) := by
  induction levels generalizing n with
  | zero => exact .refl _
  | succ levels ih =>
    have below : ((children n).flatMap (postorderTo children levels)).Perm
        ((children n).flatMap (preorderTo children levels)) :=
      List.Perm.flatMap_left _ fun c _ => ih c
    exact (below.append_right [n]).trans (List.perm_append_singleton n _)

theorem Preorder.append {ns ms order others : List α} (first : Preorder children ns order)
    (second : Preorder children ms others) : Preorder children (ns ++ ms) (order ++ others) := by
  induction first with
  | nil => exact second
  | cons inside _ _ ih =>
    rw [List.append_assoc]
    exact .cons inside ih

theorem Preorder.split {ns ms order : List α} (whole : Preorder children (ns ++ ms) order) :
    ∃ first second, order = first ++ second ∧ Preorder children ns first ∧
      Preorder children ms second := by
  induction ns generalizing order with
  | nil => exact ⟨[], order, rfl, .nil, whole⟩
  | cons n ns ih =>
    cases whole with
    | cons inside later =>
      obtain ⟨first, second, rfl, front, back⟩ := ih later
      exact ⟨_, second, (List.append_assoc _ first second).symm, .cons inside front, back⟩

theorem Preorder.length_le {ns order : List α} (whole : Preorder children ns order) :
    ns.length ≤ order.length := by
  induction whole with
  | nil => exact le_rfl
  | cons _ _ _ ih =>
    rw [List.cons_append, List.length_cons, List.length_cons, List.length_append]
    omega

theorem Preorder.head {ns order : List α} (whole : Preorder children ns order) :
    order.head? = ns.head? := by
  cases whole with
  | nil => rfl
  | cons => rfl

/-- A node comes before all that is below it. -/
theorem Preorder.below_root {root : α} {order : List α} (whole : Preorder children [root] order) :
    ∃ below, order = root :: below ∧ Preorder children (children root) below := by
  cases whole with
  | @cons _ below _ _ inside later =>
    cases later
    exact ⟨below, List.append_nil _, inside⟩

theorem Preorder.unique {ns order other : List α} (one : Preorder children ns order)
    (another : Preorder children ns other) : order = other := by
  induction one generalizing other with
  | nil =>
    cases another
    rfl
  | cons _ _ below later =>
    cases another with
    | cons inside rest => rw [below inside, later rest]

/-- Only the children of the listed nodes matter. -/
theorem Preorder.congr {children' : α → List α} {ns order : List α}
    (whole : Preorder children ns order) (same : ∀ a ∈ order, children' a = children a) :
    Preorder children' ns order := by
  induction whole with
  | nil => exact .nil
  | @cons n below rest others _ _ inside later =>
    obtain ⟨first, rest_same⟩ := List.forall_mem_cons.mp same
    have down := inside fun a member => rest_same a (List.mem_append_left _ member)
    rw [← first] at down
    exact .cons down (later fun a member => rest_same a (List.mem_append_right _ member))

theorem Preorder.mem_iff {ns order : List α} (whole : Preorder children ns order) (a : α) :
    a ∈ order ↔ ∃ n ∈ ns, Relation.ReflTransGen (ChildOf children) a n := by
  induction whole with
  | nil => simp
  | @cons n below rest others _ _ inside later =>
    rw [List.cons_append, List.mem_cons, List.mem_append, inside, later,
      List.exists_mem_cons_iff, ← or_assoc]
    refine or_congr ?_ Iff.rfl
    rw [Relation.ReflTransGen.cases_tail_iff, eq_comm (a := n)]
    refine or_congr Iff.rfl ?_
    constructor
    · rintro ⟨c, child, above⟩
      exact ⟨c, above, child⟩
    · rintro ⟨c, above, child⟩
      exact ⟨c, child, above⟩

/-- What is below a node is below one of its children. -/
theorem Preorder.mem_below_iff {n : α} {below : List α}
    (inside : Preorder children (children n) below) (a : α) :
    a ∈ below ↔ Relation.TransGen (ChildOf children) a n := by
  rw [inside.mem_iff, Relation.TransGen.tail'_iff]
  constructor
  · rintro ⟨c, child, above⟩
    exact ⟨c, above, child⟩
  · rintro ⟨c, above, child⟩
    exact ⟨c, child, above⟩

/-- Of two nodes above a third one, one is above the other. -/
theorem Branching.comparable (branching : Branching children) {a n m : α}
    (first : Relation.ReflTransGen (ChildOf children) a n)
    (second : Relation.ReflTransGen (ChildOf children) a m) :
    Relation.ReflTransGen (ChildOf children) n m ∨ Relation.ReflTransGen (ChildOf children) m n :=
  Relation.ReflTransGen.total_of_right_unique
    (fun _ _ _ left right => branching.single _ _ _ left right) first second

/-- Siblings are not below each other. -/
theorem Branching.siblings (branching : Branching children) {parent n m : α}
    (child : n ∈ children parent) (sibling : m ∈ children parent)
    (above : Relation.ReflTransGen (ChildOf children) n m) : n = m := by
  obtain equal | ⟨c, up, way⟩ := Relation.ReflTransGen.cases_head above
  · exact equal
  · obtain rfl := branching.single n parent c child up
    exact absurd (Relation.TransGen.tail' way sibling) (branching.acyclic _)

/-- No node is listed twice when no two of the first list are one below the other. -/
theorem Preorder.nodup (branching : Branching children) {ns order : List α}
    (whole : Preorder children ns order) (once : ns.Nodup)
    (apart : ∀ n ∈ ns, ∀ m ∈ ns, Relation.ReflTransGen (ChildOf children) n m → n = m) :
    order.Nodup := by
  induction whole with
  | nil => exact List.nodup_nil
  | @cons n below rest others inside later ih_inside ih_later =>
    have below_nodup := ih_inside (branching.nodup n)
      fun a child b sibling => branching.siblings child sibling
    have others_nodup := ih_later once.of_cons
      fun a member b member' => apart a (List.mem_cons_of_mem n member) b
        (List.mem_cons_of_mem n member')
    rw [List.cons_append, List.nodup_cons, List.nodup_append]
    -- What is below the first node and below another one would make them comparable.
    have disjoint : ∀ a, Relation.ReflTransGen (ChildOf children) a n → a ∉ others := by
      intro a first listed
      obtain ⟨m, member, second⟩ := (later.mem_iff a).mp listed
      have different : n ≠ m := fun equal => (List.nodup_cons.mp once).1 (equal ▸ member)
      obtain above | above := branching.comparable first second
      · exact different (apart n List.mem_cons_self m (List.mem_cons_of_mem n member) above)
      · exact different (apart m (List.mem_cons_of_mem n member) n List.mem_cons_self above).symm
    refine ⟨fun listed => ?_, below_nodup, others_nodup, ?_⟩
    · obtain below_n | later_n := List.mem_append.mp listed
      · exact branching.acyclic n ((inside.mem_below_iff n).mp below_n)
      · exact disjoint n .refl later_n
    · intro a below_a b later_b
      rintro rfl
      exact disjoint a ((inside.mem_below_iff a).mp below_a).to_reflTransGen later_b

theorem Preorder.nodup_root (branching : Branching children) {root : α} {order : List α}
    (whole : Preorder children [root] order) : order.Nodup :=
  whole.nodup branching (List.nodup_singleton root) fun n here m here' _ => by
    rw [List.mem_singleton.mp here, List.mem_singleton.mp here']

/-- The order without the nodes of a subtree is that of the tree without it. -/
theorem Preorder.prune [DecidableEq α] (branching : Branching children) {gone : α}
    {ns order : List α} (whole : Preorder children ns order) (below : α → Bool)
    (below_iff : ∀ a, below a = true ↔ Relation.ReflTransGen (ChildOf children) a gone)
    (outside : ∀ n ∈ ns, ¬Relation.TransGen (ChildOf children) n gone) :
    Preorder (fun n => (children n).filter (· ≠ gone)) (ns.filter (· ≠ gone))
      (order.filter (!below ·)) := by
  induction whole with
  | nil => exact .nil
  | @cons n under rest others inside later ih_inside ih_later =>
    have rest_outside := ih_later fun m member => outside m (List.mem_cons_of_mem n member)
    rw [List.cons_append, ← List.cons_append, List.filter_append]
    by_cases equal : n = gone
    · -- All of the subtree goes.
      have all : (n :: under).filter (!below ·) = [] := by
        rw [List.filter_eq_nil_iff]
        intro a member
        rw [Bool.not_eq_true', Bool.not_eq_false, below_iff, ← equal]
        obtain rfl | deeper := List.mem_cons.mp member
        · exact .refl
        · exact ((inside.mem_below_iff a).mp deeper).to_reflTransGen
      rw [all, List.nil_append, List.filter_cons_of_neg (by simpa using equal)]
      exact rest_outside
    · have stays : ¬Relation.ReflTransGen (ChildOf children) n gone := by
        rw [Relation.reflTransGen_iff_eq_or_transGen]
        exact fun above => above.elim (fun same => equal same.symm)
          (outside n List.mem_cons_self)
      have keeps : (!below n) = true := by
        rw [Bool.not_eq_true', ← Bool.not_eq_true, below_iff]
        exact stays
      have kept : (n :: rest).filter (· ≠ gone) = n :: rest.filter (· ≠ gone) :=
        List.filter_cons_of_pos (by simpa using equal)
      have kept' : (n :: under).filter (!below ·) = n :: under.filter (!below ·) :=
        List.filter_cons_of_pos keeps
      rw [kept, kept']
      refine .cons (ih_inside fun c child deeper => ?_) rest_outside
      obtain ⟨parent, up, above⟩ := Relation.TransGen.head'_iff.mp deeper
      obtain rfl := branching.single c n parent child up
      exact stays above

/-! The orders that exist. -/

theorem preorderTo_spec [Fintype α] [DecidableEq α] (branching : Branching children)
    (levels : Nat) (n : α)
    (bound : ∀ nodes : Finset α, (∀ a ∈ nodes, Relation.ReflTransGen (ChildOf children) a n) →
      nodes.card ≤ levels) :
    Preorder children [n] (preorderTo children levels n) := by
  induction levels generalizing n with
  | zero =>
    have one := bound {n} fun a here => by
      rw [Finset.mem_singleton.mp here]
    rw [Finset.card_singleton] at one
    exact absurd one (by decide)
  | succ levels ih =>
    have each : ∀ c ∈ children n, Preorder children [c] (preorderTo children levels c) := by
      refine fun c child => ih c fun nodes below => ?_
      have fresh : n ∉ nodes := fun member =>
        branching.acyclic n (Relation.TransGen.tail' (below n member) child)
      have more := bound (insert n nodes) fun a member => by
        obtain rfl | deeper := Finset.mem_insert.mp member
        · exact .refl
        · exact (below a deeper).tail child
      rw [Finset.card_insert_of_notMem fresh] at more
      exact Nat.le_of_succ_le_succ more
    have all : ∀ ns : List α, (∀ c ∈ ns, Preorder children [c] (preorderTo children levels c)) →
        Preorder children ns (ns.flatMap (preorderTo children levels)) := by
      intro ns
      induction ns with
      | nil => exact fun _ => .nil
      | cons c ns ih =>
        intro each
        obtain ⟨first, others⟩ := List.forall_mem_cons.mp each
        exact first.append (ih others)
    have whole := Preorder.cons (all (children n) each) .nil
    rw [List.append_nil] at whole
    exact whole

theorem preorderTo_card [Fintype α] [DecidableEq α] (branching : Branching children) (n : α) :
    Preorder children [n] (preorderTo children (Fintype.card α) n) :=
  preorderTo_spec branching _ n fun nodes _ => nodes.card_le_univ

/-! Places of the order. -/

theorem Sited.inside {root n : α} {before below after : List α}
    (place : Sited children root n before below after) : Preorder children (children n) below := by
  cases place with
  | root inside => exact inside
  | child _ _ _ inside _ => exact inside

theorem Sited.order {root n : α} {before below after : List α}
    (place : Sited children root n before below after) :
    Preorder children [root] (before ++ n :: below ++ after) := by
  induction place with
  | root inside =>
    rw [List.nil_append]
    exact .cons inside .nil
  | child _ _ _ _ _ ih =>
    simp only [List.append_assoc, List.cons_append] at ih ⊢
    exact ih

theorem Sited.exists {root n : α} {order : List α} (whole : Preorder children [root] order)
    (above : Relation.ReflTransGen (ChildOf children) n root) :
    ∃ before below after, Sited children root n before below after := by
  induction above using Relation.ReflTransGen.head_induction_on with
  | refl =>
    cases whole with
    | cons inside later => exact ⟨_, _, _, .root inside⟩
  | head up _ ih =>
    obtain ⟨before, below, after, place⟩ := ih
    obtain ⟨left, right, split⟩ := List.mem_iff_append.mp up
    have inside := place.inside
    rw [split] at inside
    obtain ⟨earlier, rest, rfl, first, last⟩ := inside.split
    cases last with
    | cons deeper last =>
      rw [← List.append_assoc] at place
      exact ⟨_, _, _, .child place split first deeper last⟩

theorem Sited.above {root n : α} {before below after : List α}
    (place : Sited children root n before below after) :
    Relation.ReflTransGen (ChildOf children) n root := by
  induction place with
  | root => exact .refl
  | @child parent c _ _ _ _ _ _ _ _ split _ _ _ ih =>
    have up : ChildOf children c parent := by
      rw [ChildOf, split]
      exact List.mem_append_right _ List.mem_cons_self
    exact .head up ih

/-- The root has nothing before it and nothing after it. -/
theorem Sited.root_eq (branching : Branching children) {root n : α} {before below after : List α}
    (place : Sited children root n before below after) (here : n = root) :
    before = [] ∧ after = [] := by
  cases place with
  | root => exact ⟨rfl, rfl⟩
  | @child parent _ left right _ _ _ _ _ up split _ _ _ =>
    have child : ChildOf children n parent := by
      rw [ChildOf, split]
      exact List.mem_append_right _ List.mem_cons_self
    rw [here] at child
    exact absurd (Relation.TransGen.head' child up.above) (branching.acyclic root)

/-- Every other node has something before it. -/
theorem Sited.before_ne_nil {root n : α} {before below after : List α}
    (place : Sited children root n before below after) (other : n ≠ root) : before ≠ [] := by
  rintro rfl
  exact other (Option.some.inj place.order.head)

end WkcBrowser.Lib
