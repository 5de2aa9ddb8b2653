import WkcBrowser.XPath.NodeSet

/-! The order of a document with its attribute nodes, and the rows of parents that tell it. -/

namespace WkcBrowser.XPath

open Lib Dom

section
variable {N : Type}

/-! The nodes of a row by their depth. -/

theorem parentWithDepth_eq {row : List N} {depth : Nat} (deep : depth + 1 ≤ row.length) :
    ∃ below m rest, row = below ++ m :: rest ∧ rest.length = depth ∧
      parentWithDepth depth row = some m := by
  have inside : row.length - 1 - depth < row.length := by omega
  refine ⟨row.take (row.length - 1 - depth), row[row.length - 1 - depth],
    row.drop (row.length - 1 - depth + 1), ?_, ?_, ?_⟩
  · rw [List.cons_getElem_drop_succ, List.take_append_drop]
  · rw [List.length_drop]
    omega
  · rw [parentWithDepth, if_pos deep, List.getElem?_eq_getElem inside]

theorem split_of_parentWithDepth {row : List N} {depth : Nat} {m : N}
    (found : parentWithDepth depth row = some m) :
    ∃ below rest, row = below ++ m :: rest ∧ rest.length = depth := by
  by_cases deep : depth + 1 ≤ row.length
  · obtain ⟨below, m', rest, split, length, also⟩ := parentWithDepth_eq deep
    rw [also] at found
    obtain rfl := Option.some.inj found
    exact ⟨below, rest, split, length⟩
  · rw [parentWithDepth, if_neg deep] at found
    cases found

theorem parentWithDepth_split (below : List N) (m : N) (rest : List N) :
    parentWithDepth rest.length (below ++ m :: rest) = some m := by
  rw [parentWithDepth, if_pos (by simp)]
  have place : (below ++ m :: rest).length - 1 - rest.length = below.length := by
    simp
  rw [place]
  exact getElem?_place below m rest

end

section
variable {N : Type} [Fintype N]

namespace AttributedNodes

variable (tree : AttributedNodes N)

/-- The node directly above a node: the owner of an attribute node, else the parent. -/
def up (n : N) : Option N :=
  if tree.isAttributeNode n then tree.ownerElement n else tree.nodes.parentNode n

def Up (n above : N) : Prop := tree.up n = some above

/-- `a` comes before `b` in the order of the document, or both are attribute nodes of one element. -/
inductive Precedes (a b : N) : Prop
  | above (below : Relation.TransGen tree.Up b a)
  | apart {c x y : N} (first : tree.Up x c) (second : tree.Up y c) (different : x ≠ y)
      (inFirst : Relation.ReflTransGen tree.Up a x) (inSecond : Relation.ReflTransGen tree.Up b y)
      (order : tree.isAttributeNode x ∨
        ∃ left between right, tree.nodes.childNodes c = left ++ x :: (between ++ y :: right))

/-- The node belongs to the tree with the root. -/
def Belongs (root n : N) : Prop :=
  if tree.isAttributeNode n then ∃ owner, tree.ownerElement n = some owner ∧ tree.nodes.Above owner root
  else tree.nodes.Above n root

/-- What is at the top of a tree. -/
structure IsRoot (root : N) : Prop where
  parentless : tree.nodes.parentNode root = none
  notAttribute : tree.isAttributeNode root = false

/-- A node with all the nodes above it, up to the root. -/
inductive Row (root : N) : N → List N → Prop
  | root : Row root root [root]
  | up {n m : N} {above : List N} (step : tree.Up n m) (notAttribute : tree.isAttributeNode m = false)
      (row : Row root m above) : Row root n (n :: above)

variable {tree} {root n m : N} {row above : List N}

theorem Row.head (is : tree.Row root n row) : ∃ above, row = n :: above := by
  cases is with
  | root => exact ⟨[], rfl⟩
  | up => exact ⟨_, rfl⟩

theorem IsRoot.up (isRoot : tree.IsRoot root) : tree.up root = none := by
  rw [AttributedNodes.up, isRoot.notAttribute]
  exact isRoot.parentless

theorem Row.unique (isRoot : tree.IsRoot root) (is : tree.Row root n row) :
    ∀ other, tree.Row root n other → other = row := by
  induction is with
  | root =>
    intro other also
    cases also with
    | root => rfl
    | up step =>
      rw [Up, isRoot.up] at step
      cases step
  | up step _ _ ih =>
    intro other also
    cases also with
    | root =>
      rw [Up, isRoot.up] at step
      cases step
    | up step' _ row =>
      obtain rfl := Option.some.inj (step'.symm.trans step)
      rw [ih _ row]

/-- The rest of a row is a row of its own. -/
theorem Row.rest (is : tree.Row root n row) :
    ∀ below rest, row = below ++ m :: rest → tree.Row root m (m :: rest) := by
  induction is with
  | root =>
    intro below rest split
    cases below with
    | nil =>
      cases split
      exact .root
    | cons b below => simp at split
  | up step notAttribute row ih =>
    intro below rest split
    cases below with
    | nil =>
      cases split
      exact .up step notAttribute row
    | cons b below => exact ih below rest (List.cons.inj split).2

theorem Row.under (is : tree.Row root n row) :
    ∀ below rest, row = below ++ m :: rest → Relation.ReflTransGen tree.Up n m := by
  induction is with
  | root =>
    intro below rest split
    cases below with
    | nil =>
      cases split
      exact .refl
    | cons b below => simp at split
  | up step _ _ ih =>
    intro below rest split
    cases below with
    | nil =>
      cases split
      exact .refl
    | cons b below => exact .head step (ih below rest (List.cons.inj split).2)

/-- Only the first node of a row may be an attribute node. -/
theorem Row.notAttribute (is : tree.Row root n (n :: above)) :
    ∀ m ∈ above, tree.isAttributeNode m = false := by
  generalize whole : n :: above = row at is
  induction is generalizing above with
  | root =>
    cases whole
    exact fun m none => nomatch none
  | @up n' m' above' step notAttribute row ih =>
    cases whole
    obtain ⟨rest, rfl⟩ := row.head
    intro m member
    rcases List.mem_cons.mp member with rfl | later
    · exact notAttribute
    · exact ih rfl m later

theorem Row.nodup (isRoot : tree.IsRoot root) (is : tree.Row root n row) : row.Nodup := by
  have whole := is
  induction is with
  | root => exact List.nodup_singleton _
  | @up n m above step notAttribute row ih =>
    refine List.nodup_cons.mpr ⟨fun inside => ?_, ih row⟩
    obtain ⟨before, rest, split⟩ := List.mem_iff_append.mp inside
    have again := row.rest before rest split
    have shorter := congrArg List.length (whole.unique isRoot _ again)
    rw [split] at shorter
    simp at shorter
    omega

/-- The loop over the parents finds the rest of a row. -/
theorem Row.parents_eq (isRoot : tree.IsRoot root) (notAttribute : tree.isAttributeNode n = false)
    (is : tree.Row root n (n :: above)) {steps : Nat} (enough : (n :: above).length ≤ steps) :
    tree.parents steps n = some above := by
  generalize whole : n :: above = row at is enough
  induction is generalizing above steps with
  | root =>
    cases whole
    obtain ⟨steps, rfl⟩ : ∃ more, steps = more + 1 := ⟨steps - 1, by simp at enough; omega⟩
    rw [parents, isRoot.parentless]
  | @up n' m' above' step notAttribute' row ih =>
    cases whole
    rw [List.length_cons] at enough
    obtain ⟨steps, rfl⟩ : ∃ more, steps = more + 1 := ⟨steps - 1, by omega⟩
    obtain ⟨rest, rfl⟩ := row.head
    rw [Up, AttributedNodes.up, notAttribute] at step
    have parent : tree.nodes.parentNode n' = some m' := step
    rw [parents, parent]
    dsimp only
    rw [ih notAttribute' rfl (by omega)]
    rfl

theorem IsRoot.ofAbove (isRoot : tree.IsRoot root) (above : tree.nodes.Above n root) :
    tree.isAttributeNode n = false ∧ ∃ row, tree.Row root n row := by
  induction above using Relation.ReflTransGen.head_induction_on with
  | refl => exact ⟨isRoot.notAttribute, _, .root⟩
  | @head n m step _ ih =>
    obtain ⟨notAttribute, row, is⟩ := ih
    have plain : tree.isAttributeNode n = false := by
      by_contra owned
      rw [Bool.not_eq_false, isAttributeNode, decide_eq_true_iff] at owned
      have parentless := tree.unlinked n owned
      rw [show tree.nodes.parentNode n = some m from step] at parentless
      cases parentless
    refine ⟨plain, _, .up ?_ notAttribute is⟩
    rw [Up, AttributedNodes.up, plain]
    exact step

theorem Row.length_le (isRoot : tree.IsRoot root) (is : tree.Row root n row) :
    row.length ≤ Fintype.card N := (is.nodup isRoot).length_le_card

/-- A node of the tree has a row, and the source finds it. -/
theorem Belongs.hasRow (isRoot : tree.IsRoot root) (belongs : tree.Belongs root n) :
    ∃ row, tree.Row root n row ∧ tree.parentsVector n = some row := by
  rw [Belongs] at belongs
  rw [parentsVector]
  by_cases owned : tree.isAttributeNode n = true
  · rw [if_pos owned] at belongs
    obtain ⟨owner, has, above⟩ := belongs
    obtain ⟨plain, row, is⟩ := isRoot.ofAbove above
    have step : tree.Up n owner := by
      rw [Up, AttributedNodes.up, if_pos owned, has]
    obtain ⟨rest, rfl⟩ := is.head
    refine ⟨_, .up step plain is, ?_⟩
    rw [if_pos owned, has]
    simp only [Option.bind_eq_bind, Option.bind_some]
    rw [is.parents_eq isRoot plain (is.length_le isRoot)]
    rfl
  · rw [if_neg owned] at belongs
    obtain ⟨plain, row, is⟩ := isRoot.ofAbove belongs
    obtain ⟨rest, rfl⟩ := is.head
    refine ⟨_, is, ?_⟩
    rw [if_neg owned, is.parents_eq isRoot plain (is.length_le isRoot)]
    rfl

theorem Row.rooted (is : tree.Row root n row) : parentWithDepth 0 row = some root := by
  have last : ∃ below, row = below ++ [root] := by
    induction is with
    | root => exact ⟨[], rfl⟩
    | @up n m above _ _ _ ih =>
      obtain ⟨below, rfl⟩ := ih
      exact ⟨n :: below, rfl⟩
  obtain ⟨below, rfl⟩ := last
  exact parentWithDepth_split below root []

/-- The top of a row comes before all that is below it. -/
theorem Row.precedes (is : tree.Row root n row) {depth : Nat}
    (found : parentWithDepth depth row = some m) (different : n ≠ m) : tree.Precedes m n := by
  obtain ⟨below, rest, split, -⟩ := split_of_parentWithDepth found
  rcases Relation.reflTransGen_iff_eq_or_transGen.mp (is.under below rest split) with same | under
  · exact absurd same.symm different
  · exact .above under

/-- What a row has below a node. -/
theorem Row.lower (is : tree.Row root n row) {depth : Nat}
    (found : parentWithDepth depth row = some m) (deep : depth + 1 < row.length) :
    ∃ y, parentWithDepth (depth + 1) row = some y ∧ tree.Up y m ∧
      Relation.ReflTransGen tree.Up n y ∧ (tree.isAttributeNode y = true → y = n) := by
  obtain ⟨below, rest, split, length⟩ := split_of_parentWithDepth found
  have filled : below ≠ [] := by
    rintro rfl
    rw [split, List.nil_append, List.length_cons] at deep
    omega
  obtain ⟨front, y, rfl⟩ : ∃ front y, below = front ++ [y] :=
    ⟨_, _, (List.dropLast_append_getLast filled).symm⟩
  rw [List.append_assoc, List.singleton_append] at split
  have here := parentWithDepth_split front y (m :: rest)
  rw [← split, List.length_cons, length] at here
  refine ⟨y, here, ?_, is.under front (m :: rest) split, fun isAttribute => ?_⟩
  · cases is.rest front (m :: rest) split with
    | up step _ above =>
      obtain ⟨_, same⟩ := above.head
      obtain rfl := (List.cons.inj same).1
      exact step
  · obtain ⟨above, whole⟩ := is.head
    rw [whole] at is split
    cases front with
    | nil => exact (List.cons.inj split).1.symm
    | cons b front =>
      have inside : y ∈ above := by
        rw [(List.cons.inj split).2]
        exact List.mem_append_right _ List.mem_cons_self
      rw [is.notAttribute y inside] at isAttribute
      cases isAttribute

end AttributedNodes

end

end WkcBrowser.XPath
