import Mathlib.Algebra.GroupWithZero.Nat
import WkcBrowser.Dom.Node

/-! What it means that the links of nodes form trees, and that linking and unlinking children keeps it. -/

namespace WkcBrowser.Dom

open Lib

namespace Nodes

variable {N : Type}

/-- One node is the parent of another. -/
def Up (nodes : Nodes N) (child parent : N) : Prop := nodes.parentNode child = some parent

/-- A node is above another one, or the same. -/
def Above (nodes : Nodes N) (n ancestor : N) : Prop := Relation.ReflTransGen nodes.Up n ancestor

/-- These are the children of each node, in their order. -/
structure Lists (nodes : Nodes N) (contents : N → List N) : Prop where
  forms : ∀ n, nodes.siblings.Forms (nodes.children n) (contents n)
  parent : ∀ n c, c ∈ contents n ↔ nodes.parentNode c = some n

/-- Every container has a list of exactly the nodes whose parent it is. -/
structure Linked (nodes : Nodes N) : Prop where
  lists : ∃ contents, nodes.Lists contents
  unlinked : ∀ c, nodes.parentNode c = none →
    nodes.siblings.next c = none ∧ nodes.siblings.prev c = none

/-- No node is above itself. -/
def Acyclic (nodes : Nodes N) : Prop := ∀ n, ¬Relation.TransGen nodes.Up n n

structure Forest (nodes : Nodes N) : Prop where
  linked : nodes.Linked
  acyclic : nodes.Acyclic

/-- Documents and flags may differ. -/
structure SameLinks (nodes nodes' : Nodes N) : Prop where
  parentNode : nodes'.parentNode = nodes.parentNode
  siblings : nodes'.siblings = nodes.siblings
  children : nodes'.children = nodes.children

section
variable {nodes nodes' : Nodes N} {contents : N → List N} {this child : N}

theorem SameLinks.refl (nodes : Nodes N) : nodes.SameLinks nodes := ⟨rfl, rfl, rfl⟩

theorem SameLinks.trans {nodes'' : Nodes N} (first : nodes.SameLinks nodes')
    (second : nodes'.SameLinks nodes'') : nodes.SameLinks nodes'' :=
  ⟨second.parentNode.trans first.parentNode, second.siblings.trans first.siblings,
    second.children.trans first.children⟩

theorem SameLinks.lists (same : nodes.SameLinks nodes') :
    nodes'.Lists contents ↔ nodes.Lists contents := by
  constructor
  · rintro ⟨forms, parents⟩
    rw [same.siblings, same.children] at forms
    rw [same.parentNode] at parents
    exact ⟨forms, parents⟩
  · rintro ⟨forms, parents⟩
    rw [← same.siblings, ← same.children] at forms
    rw [← same.parentNode] at parents
    exact ⟨forms, parents⟩

theorem SameLinks.linked (same : nodes.SameLinks nodes') : nodes'.Linked ↔ nodes.Linked := by
  constructor
  · rintro ⟨⟨contents, lists⟩, unlinked⟩
    rw [same.parentNode, same.siblings] at unlinked
    exact ⟨⟨contents, same.lists.mp lists⟩, unlinked⟩
  · rintro ⟨⟨contents, lists⟩, unlinked⟩
    rw [← same.parentNode, ← same.siblings] at unlinked
    exact ⟨⟨contents, same.lists.mpr lists⟩, unlinked⟩

theorem SameLinks.acyclic (same : nodes.SameLinks nodes') : nodes'.Acyclic ↔ nodes.Acyclic := by
  have up : nodes'.Up = nodes.Up := by
    unfold Up
    rw [same.parentNode]
  unfold Acyclic
  rw [up]

theorem SameLinks.forest (same : nodes.SameLinks nodes') : nodes'.Forest ↔ nodes.Forest :=
  ⟨fun forest => ⟨same.linked.mp forest.linked, same.acyclic.mp forest.acyclic⟩,
    fun forest => ⟨same.linked.mpr forest.linked, same.acyclic.mpr forest.acyclic⟩⟩

/-! A loop over parents. -/

theorem transGen_of_mem_ancestors {steps : Nat} {n ancestor : N}
    (found : ancestor ∈ nodes.ancestors steps n) : Relation.TransGen nodes.Up n ancestor := by
  induction steps generalizing n with
  | zero => cases found
  | succ steps ih =>
    unfold ancestors at found
    cases up : nodes.parentNode n with
    | none =>
      rw [up] at found
      cases found
    | some parent =>
      rw [up] at found
      obtain rfl | later := List.mem_cons.mp found
      · exact .single up
      · exact .head up (ih later)

theorem mem_ancestors_of_transGen {n ancestor : N} (above : Relation.TransGen nodes.Up n ancestor) :
    ∃ steps, ∀ more, ancestor ∈ nodes.ancestors (steps + more) n := by
  induction above using Relation.TransGen.head_induction_on with
  | single up =>
    refine ⟨1, fun more => ?_⟩
    rw [Nat.add_comm, ancestors, up]
    exact List.mem_cons_self
  | head up _ ih =>
    obtain ⟨steps, found⟩ := ih
    refine ⟨steps + 1, fun more => ?_⟩
    rw [Nat.add_right_comm, ancestors, up]
    exact List.mem_cons_of_mem _ (found more)

/-- A loop that ends early is not changed by more steps. -/
theorem ancestors_of_length_lt {steps : Nat} {n : N}
    (short : (nodes.ancestors steps n).length < steps) (more : Nat) :
    nodes.ancestors (steps + more) n = nodes.ancestors steps n := by
  induction steps generalizing n with
  | zero => cases short
  | succ steps ih =>
    rw [Nat.add_right_comm]
    unfold ancestors at short ⊢
    cases up : nodes.parentNode n with
    | none => rfl
    | some parent =>
      rw [up] at short
      dsimp only
      rw [ih (Nat.lt_of_succ_lt_succ short)]

theorem Acyclic.nodup_ancestors (acyclic : nodes.Acyclic) (steps : Nat) (n : N) :
    (n :: nodes.ancestors steps n).Nodup := by
  refine List.nodup_cons.mpr ⟨fun found => acyclic n (transGen_of_mem_ancestors found), ?_⟩
  induction steps generalizing n with
  | zero => exact List.nodup_nil
  | succ steps ih =>
    unfold ancestors
    cases nodes.parentNode n with
    | none => exact List.nodup_nil
    | some parent =>
      exact List.nodup_cons.mpr
        ⟨fun found => acyclic parent (transGen_of_mem_ancestors found), ih parent⟩

variable [DecidableEq N]

theorem Acyclic.isDescendantOf_iff [Fintype N] (acyclic : nodes.Acyclic) {n other : N} :
    nodes.isDescendantOf n other = true ↔ Relation.TransGen nodes.Up n other := by
  unfold isDescendantOf
  rw [decide_eq_true_iff]
  refine ⟨transGen_of_mem_ancestors, fun above => ?_⟩
  obtain ⟨steps, found⟩ := mem_ancestors_of_transGen above
  have bound := (acyclic.nodup_ancestors (Fintype.card N) n).length_le_card
  rw [List.length_cons] at bound
  have late := found (Fintype.card N)
  rw [Nat.add_comm, ancestors_of_length_lt bound] at late
  exact late

/-- The check of the hierarchy says what it should. -/
theorem Acyclic.inSubtree_iff [Fintype N] (acyclic : nodes.Acyclic) {root n : N} :
    nodes.inSubtree root n = true ↔ nodes.Above n root := by
  unfold inSubtree Above
  rw [Bool.or_eq_true, decide_eq_true_iff, acyclic.isDescendantOf_iff,
    Relation.reflTransGen_iff_eq_or_transGen, eq_comm]

/-- A child that is put below a container makes a cycle only when it is above the container. -/
theorem acyclic_setParent (acyclic : nodes.Acyclic) (root : nodes.parentNode child = none)
    (parent : nodes'.parentNode = Function.update nodes.parentNode child (some this)) :
    nodes'.Acyclic ↔ ¬nodes.Above this child := by
  have up : ∀ a b, nodes'.Up a b ↔ a = child ∧ b = this ∨ nodes.Up a b := by
    intro a b
    rw [Up, parent, Up]
    by_cases same : a = child
    · rw [same, Function.update_self, root]
      simp [eq_comm]
    · rw [Function.update_of_ne same]
      simp [same]
  constructor
  · intro free above
    have path : Relation.ReflTransGen nodes'.Up this child :=
      Relation.ReflTransGen.mono (fun a b step => (up a b).mpr (.inr step)) _ _ above
    exact free child (Relation.TransGen.head' ((up child this).mpr (.inl ⟨rfl, rfl⟩)) path)
  · intro apart n cycle
    -- Either no step of the way is the new one, or the way leads up to the container and on from it.
    have ways : ∀ a b, Relation.TransGen nodes'.Up a b →
        Relation.TransGen nodes.Up a b ∨ nodes.Above a child ∧ nodes.Above this b := by
      intro a b way
      induction way with
      | single step =>
        obtain ⟨rfl, rfl⟩ | step := (up _ _).mp step
        · exact .inr ⟨.refl, .refl⟩
        · exact .inl (.single step)
      | tail _ step ih =>
        obtain ⟨rfl, rfl⟩ | step := (up _ _).mp step
        · obtain old | ⟨before, after⟩ := ih
          · exact .inr ⟨old.to_reflTransGen, .refl⟩
          · exact absurd after apart
        · obtain old | ⟨before, after⟩ := ih
          · exact .inl (old.tail step)
          · exact .inr ⟨before, after.tail step⟩
    obtain old | ⟨before, after⟩ := ways n n cycle
    · exact acyclic n old
    · exact apart (after.trans before)

omit [DecidableEq N] in
/-- What is taken out of a tree leaves no cycle. -/
theorem Acyclic.mono (acyclic : nodes.Acyclic)
    (fewer : ∀ n parent, nodes'.parentNode n = some parent → nodes.parentNode n = some parent) :
    nodes'.Acyclic :=
  fun n cycle => acyclic n (Relation.TransGen.mono fewer n n cycle)

/-- A child between two neighbours, as the links say it. -/
def spliced (nodes : Nodes N) (this child : N) (prev next : Option N) : Nodes N :=
  { nodes with
    parentNode := Function.update nodes.parentNode child (some this)
    siblings := (nodes.siblings.splice (nodes.children this) child prev next).1
    children := Function.update nodes.children this
      (nodes.siblings.splice (nodes.children this) child prev next).2 }

/-- The lists after a child is put between its neighbours. -/
theorem Lists.spliced (lists : nodes.Lists contents) {before after : List N}
    (whole : contents this = before ++ after) (root : nodes.parentNode child = none) :
    (nodes.spliced this child before.getLast? after.head?).Lists
      (Function.update contents this (before ++ child :: after)) := by
  have here := lists.forms this
  rw [whole] at here
  have new : ∀ n, child ∉ contents n := fun n inside =>
    absurd ((lists.parent n child).mp inside) (by rw [root]; exact (Option.some_ne_none n).symm)
  constructor
  · intro n
    by_cases same : n = this
    · rw [same, Function.update_self]
      change Links.Forms _ (Function.update nodes.children this _ this) _
      rw [Function.update_self]
      exact here.splice (whole ▸ new this)
    · rw [Function.update_of_ne same]
      change Links.Forms _ (Function.update nodes.children this _ n) _
      rw [Function.update_of_ne same]
      have other : ∀ b ∈ contents n, b ≠ child ∧ b ∉ before ∧ b ∉ after := by
        intro b inside
        refine ⟨fun equal => new n (equal ▸ inside), ?_⟩
        rw [← not_or, ← List.mem_append, ← whole, lists.parent this b, (lists.parent n b).mp inside]
        exact fun equal => same (Option.some.inj equal)
      have apart : ∀ b ∈ contents n,
          (nodes.spliced this child before.getLast? after.head?).siblings.next b =
            nodes.siblings.next b ∧
          (nodes.spliced this child before.getLast? after.head?).siblings.prev b =
            nodes.siblings.prev b := by
        intro b inside
        obtain ⟨different, not_before, not_after⟩ := other b inside
        exact Links.splice_other (nodes.children this) different not_before not_after
      exact (lists.forms n).congr (fun b inside => (apart b inside).1)
        fun b inside => (apart b inside).2
  · intro n c
    change _ ↔ Function.update nodes.parentNode child (some this) c = _
    by_cases equal : c = child
    · rw [equal, Function.update_self]
      by_cases same : n = this
      · rw [same, Function.update_self]
        simp
      · rw [Function.update_of_ne same]
        exact iff_of_false (new n) fun equal => same (Option.some.inj equal).symm
    · rw [Function.update_of_ne equal, ← lists.parent n c]
      by_cases same : n = this
      · rw [same, Function.update_self, whole]
        simp [equal]
      · rw [Function.update_of_ne same]

theorem Linked.spliced (linked : nodes.Linked) (lists : nodes.Lists contents) {before after : List N}
    (whole : contents this = before ++ after) (root : nodes.parentNode child = none) :
    (nodes.spliced this child before.getLast? after.head?).Linked := by
  refine ⟨⟨_, lists.spliced whole root⟩, fun c unlinked => ?_⟩
  change Function.update nodes.parentNode child (some this) c = none at unlinked
  have different : c ≠ child := by
    rintro rfl
    rw [Function.update_self] at unlinked
    exact Option.some_ne_none this unlinked
  rw [Function.update_of_ne different] at unlinked
  have outside : c ∉ before ∧ c ∉ after := by
    rw [← not_or, ← List.mem_append, ← whole, lists.parent this c, unlinked]
    exact (Option.some_ne_none this).symm
  obtain ⟨next, prev⟩ := linked.unlinked c unlinked
  have apart : (nodes.spliced this child before.getLast? after.head?).siblings.next c =
        nodes.siblings.next c ∧
      (nodes.spliced this child before.getLast? after.head?).siblings.prev c =
        nodes.siblings.prev c :=
    Links.splice_other (nodes.children this) different outside.1 outside.2
  exact ⟨apart.1.trans next, apart.2.trans prev⟩

/-! What the functions of `ContainerNode` do with the links. -/

theorem linkBefore_eq {next : N} :
    nodes.linkBefore this next child =
      nodes.spliced this child (nodes.previousSibling next) (some next) := by
  unfold linkBefore spliced Links.splice
  cases nodes.previousSibling next with
  | none =>
    simp [setPreviousSibling, setFirstChild, setParent, setNextSibling, funext_iff,
      Function.update_apply, eq_comm]
  | some prev =>
    simp [setPreviousSibling, setParent, setNextSibling, funext_iff, Function.update_apply, eq_comm]

/-- What is first after a place. -/
def following (nodes : Nodes N) (this : N) : Option N → Option N
  | some prev => nodes.nextSibling prev
  | none => nodes.firstChild this

theorem linkAfter_eq {prev : Option N} :
    nodes.linkAfter this prev child =
      nodes.spliced this child prev (nodes.following this prev) := by
  unfold linkAfter spliced Links.splice following
  cases prev with
  | none =>
    dsimp only
    cases nodes.firstChild this <;>
      simp [setPreviousSibling, setFirstChild, setLastChild, setParent, setNextSibling, funext_iff,
        Function.update_apply, eq_comm]
  | some prev =>
    obtain ⟨next, found⟩ : ∃ next, nodes.nextSibling prev = next := ⟨_, rfl⟩
    simp only [found]
    cases next <;>
      simp [setPreviousSibling, setLastChild, setParent, setNextSibling, funext_iff,
        Function.update_apply, eq_comm]

theorem linkLast_eq (next : nodes.siblings.next child = none)
    (prev : nodes.siblings.prev child = none) (other : nodes.lastChild this ≠ some child) :
    nodes.linkLast this child = nodes.spliced this child (nodes.lastChild this) none := by
  have unchanged : ∀ links : N → Option N, links child = none →
      ∀ b, (if b = child then none else links b) = links b := by
    intro links null b
    by_cases equal : b = child
    · rw [if_pos equal, equal, null]
    · rw [if_neg equal]
  unfold linkLast spliced Links.splice
  obtain ⟨last, found⟩ : ∃ last, nodes.lastChild this = last := ⟨_, rfl⟩
  have found' : (nodes.setParent child this).lastChild this = last := found
  simp only [found, found']
  cases last with
  | none => simp [setFirstChild, setLastChild, setParent, unchanged _ next, unchanged _ prev]
  | some last =>
    have different : child ≠ last := fun equal => other (equal ▸ found)
    simp only [setPreviousSibling, setLastChild, setParent, setNextSibling, mk.injEq, true_and]
    refine ⟨congrArg₂ Links.mk (funext fun b => ?_) (funext fun b => ?_), by simp⟩
    · by_cases equal : b = last
      · simp [equal, different.symm]
      · simp [Function.update_of_ne equal, Ne.symm equal, unchanged _ next]
    · simp [Function.update_apply]

/-- A child is taken out of its list. -/
def cut (nodes : Nodes N) (this child : N) : Nodes N :=
  { nodes with
    parentNode := Function.update nodes.parentNode child none
    siblings := (nodes.siblings.remove (nodes.children this) child).1
    children := Function.update nodes.children this
      (nodes.siblings.remove (nodes.children this) child).2 }

theorem setFirstChild_if {condition : Prop} [Decidable condition] {next : Option N} :
    (if condition then nodes.setFirstChild this next else nodes) =
      nodes.setFirstChild this (if condition then next else nodes.firstChild this) := by
  by_cases holds : condition
  · rw [if_pos holds, if_pos holds]
  · rw [if_neg holds, if_neg holds]
    simp [setFirstChild, firstChild]

theorem setLastChild_if {condition : Prop} [Decidable condition] {prev : Option N} :
    (if condition then nodes.setLastChild this prev else nodes) =
      nodes.setLastChild this (if condition then prev else nodes.lastChild this) := by
  by_cases holds : condition
  · rw [if_pos holds, if_pos holds]
  · rw [if_neg holds, if_neg holds]
    simp [setLastChild, lastChild]

/-- Taking a child out changes its own links, those of its neighbours and the ends. -/
theorem unlink_links :
    nodes.unlink this child = { nodes with
      parentNode := Function.update nodes.parentNode child none
      siblings := ⟨fun b => if b = child then none else
          if nodes.previousSibling child = some b then nodes.nextSibling child
          else nodes.siblings.next b,
        fun b => if b = child then none else
          if nodes.nextSibling child = some b then nodes.previousSibling child
          else nodes.siblings.prev b⟩
      children := Function.update nodes.children this
        ⟨if nodes.firstChild this = some child then nodes.nextSibling child
          else nodes.firstChild this,
          if nodes.lastChild this = some child then nodes.previousSibling child
          else nodes.lastChild this⟩ } := by
  unfold unlink
  obtain ⟨next, foundNext⟩ : ∃ next, nodes.nextSibling child = next := ⟨_, rfl⟩
  obtain ⟨prev, foundPrev⟩ : ∃ prev, nodes.previousSibling child = prev := ⟨_, rfl⟩
  rw [foundNext, foundPrev]
  simp only [setFirstChild_if, setLastChild_if]
  cases next <;> cases prev <;>
    simp [firstChild, lastChild, setFirstChild, setLastChild, setPreviousSibling,
      setNextSibling, setParent, funext_iff, Function.update_apply, eq_comm]

theorem unlink_eq (lists : nodes.Lists contents) (inside : nodes.parentNode child = some this) :
    nodes.unlink this child = nodes.cut this child := by
  obtain ⟨before, after, whole⟩ := List.mem_iff_append.mp ((lists.parent this child).mpr inside)
  have forms := lists.forms this
  rw [whole] at forms
  obtain ⟨absent, absent', -⟩ := Links.nodup_split forms.nodup
  obtain ⟨next, prev⟩ := forms.links before child after rfl
  have head : nodes.firstChild this = (before ++ child :: after).head? := forms.head
  have tail : nodes.lastChild this = (before ++ child :: after).getLast? := forms.tail
  have next' : nodes.nextSibling child = after.head? := next
  have prev' : nodes.previousSibling child = before.getLast? := prev
  have notLast : before.getLast? ≠ some child := fun last => absent (List.mem_of_mem_getLast? last)
  have notFirst : after.head? ≠ some child := fun first => absent' (List.mem_of_mem_head? first)
  have first : (if (before ++ child :: after).head? = some child then after.head?
      else (before ++ child :: after).head?) = (before ++ after).head? := by
    cases before with
    | nil => exact if_pos rfl
    | cons c before =>
      have different : c ≠ child := fun equal => absent (equal ▸ List.mem_cons_self)
      exact if_neg fun equal => different (Option.some.inj equal)
  have last : (if (before ++ child :: after).getLast? = some child then before.getLast?
      else (before ++ child :: after).getLast?) = (before ++ after).getLast? := by
    obtain rfl | ⟨later, c, rfl⟩ := List.eq_nil_or_concat after
    · simp
    · have different : c ≠ child := by
        rintro rfl
        exact absent' (by simp)
      simp [List.getLast?_cons, different]
  have forward : ∀ b, (if b = child then none else if before.getLast? = some b then after.head?
      else nodes.siblings.next b) = if before.getLast? = some b then after.head?
        else if b = child then none else nodes.siblings.next b := by
    intro b
    by_cases equal : b = child
    · rw [if_pos equal, if_pos equal, equal, if_neg notLast]
    · rw [if_neg equal, if_neg equal]
  have back : ∀ b, (if b = child then none else if after.head? = some b then before.getLast?
      else nodes.siblings.prev b) = if after.head? = some b then before.getLast?
        else if b = child then none else nodes.siblings.prev b := by
    intro b
    by_cases equal : b = child
    · rw [if_pos equal, if_pos equal, equal, if_neg notFirst]
    · rw [if_neg equal, if_neg equal]
  rw [unlink_links, cut, forms.remove_eq, next', prev', head, tail, first, last, funext forward,
    funext back]

theorem Lists.cut (lists : nodes.Lists contents) {before after : List N}
    (whole : contents this = before ++ child :: after) :
    (nodes.cut this child).Lists (Function.update contents this (before ++ after)) := by
  have forms := lists.forms this
  rw [whole] at forms
  obtain ⟨absent, absent', -⟩ := Links.nodup_split forms.nodup
  have inside : nodes.parentNode child = some this :=
    (lists.parent this child).mp (whole ▸ List.mem_append_right _ List.mem_cons_self)
  constructor
  · intro n
    by_cases same : n = this
    · rw [same, Function.update_self]
      change Links.Forms _ (Function.update nodes.children this _ this) _
      rw [Function.update_self]
      exact forms.remove
    · rw [Function.update_of_ne same]
      change Links.Forms _ (Function.update nodes.children this _ n) _
      rw [Function.update_of_ne same]
      have apart : ∀ b ∈ contents n, b ∉ before ++ child :: after := by
        intro b member
        rw [← whole, lists.parent this b, (lists.parent n b).mp member]
        exact fun equal => same (Option.some.inj equal)
      exact (lists.forms n).congr (fun b member => (forms.remove_other (apart b member)).1)
        fun b member => (forms.remove_other (apart b member)).2
  · intro n c
    change _ ↔ Function.update nodes.parentNode child none c = _
    by_cases equal : c = child
    · rw [equal, Function.update_self]
      by_cases same : n = this
      · rw [same, Function.update_self]
        simp [absent, absent']
      · rw [Function.update_of_ne same, lists.parent n child, inside]
        exact iff_of_false (fun equal => same (Option.some.inj equal).symm)
          (Option.some_ne_none n).symm
    · rw [Function.update_of_ne equal, ← lists.parent n c]
      by_cases same : n = this
      · rw [same, Function.update_self, whole]
        simp [equal]
      · rw [Function.update_of_ne same]

theorem Linked.cut (linked : nodes.Linked) (lists : nodes.Lists contents)
    (inside : nodes.parentNode child = some this) : (nodes.cut this child).Linked := by
  obtain ⟨before, after, whole⟩ := List.mem_iff_append.mp ((lists.parent this child).mpr inside)
  have forms := lists.forms this
  rw [whole] at forms
  refine ⟨⟨_, lists.cut whole⟩, fun c unlinked => ?_⟩
  change Function.update nodes.parentNode child none c = none at unlinked
  by_cases equal : c = child
  · rw [equal]
    exact forms.remove_self
  · rw [Function.update_of_ne equal] at unlinked
    have outside : c ∉ before ++ child :: after := by
      rw [← whole, lists.parent this c, unlinked]
      exact (Option.some_ne_none this).symm
    obtain ⟨next, prev⟩ := linked.unlinked c unlinked
    obtain ⟨next', prev'⟩ := forms.remove_other outside
    exact ⟨next'.trans next, prev'.trans prev⟩

/-- Children lose their links, and the container its ends. -/
def cleared (nodes : Nodes N) (this : N) (rest : List N) : Nodes N :=
  { nodes with
    parentNode := fun n => if n ∈ rest then none else nodes.parentNode n
    siblings := ⟨fun n => if n ∈ rest then none else nodes.siblings.next n,
      fun n => if n ∈ rest then none else nodes.siblings.prev n⟩
    children := Function.update nodes.children this {} }

/-- One child after the other is cleared, as long as the links lead on to the next one. -/
theorem unlinkAll_eq (rest : List N) (steps : Nat) (enough : rest.length ≤ steps)
    (head : nodes.firstChild this = rest.head?) (tail : nodes.lastChild this = rest.getLast?)
    (chain : ∀ before a after, rest = before ++ a :: after → nodes.siblings.next a = after.head?)
    (nodup : rest.Nodup) :
    unlinkAll this steps nodes = nodes.cleared this rest := by
  induction rest generalizing steps nodes with
  | nil =>
    have empty : nodes.children this = {} := by
      unfold firstChild at head
      unfold lastChild at tail
      cases ends : nodes.children this
      rw [ends] at head tail
      cases head
      cases tail
      rfl
    have same : Function.update nodes.children this {} = nodes.children := by
      rw [← empty, Function.update_eq_self]
    have done : nodes.cleared this [] = nodes := by
      unfold cleared
      rw [same]
      simp
    rw [done]
    cases steps with
    | zero => rfl
    | succ steps =>
      unfold unlinkAll
      rw [head]
      rfl
  | cons n rest ih =>
    obtain ⟨outside, nodup⟩ := List.nodup_cons.mp nodup
    cases steps with
    | zero => exact absurd enough (by simp)
    | succ steps =>
      have next : nodes.nextSibling n = rest.head? := chain [] n rest rfl
      have next' : nodes.siblings.next n = rest.head? := next
      unfold unlinkAll
      rw [head]
      dsimp only [List.head?_cons]
      rw [setLastChild_if, ih steps (by simpa using enough) ?_ ?_ ?_ nodup]
      · have once : ∀ {α : Type} (old : α) (null : α) (b : N),
            (if b ∈ rest then null else if b = n then null else old) =
              if b ∈ n :: rest then null else old := by
          intro α old null b
          by_cases member : b ∈ rest
          · rw [if_pos member, if_pos (List.mem_cons_of_mem n member)]
          · by_cases equal : b = n
            · rw [if_neg member, if_pos equal, if_pos (equal ▸ List.mem_cons_self)]
            · rw [if_neg member, if_neg equal, if_neg (by simp [equal, member])]
        simp [cleared, setFirstChild, setLastChild, setPreviousSibling, setNextSibling, setParent,
          Function.update_apply, once]
      · simp [firstChild, setFirstChild, setLastChild, setPreviousSibling, setNextSibling,
          setParent, next]
      · have last : nodes.lastChild this = (n :: rest).getLast? := tail
        have last' : (if (n :: rest).getLast? = some n then none else (n :: rest).getLast?) =
            rest.getLast? := by
          obtain rfl | ⟨earlier, c, rfl⟩ := List.eq_nil_or_concat rest
          · exact if_pos rfl
          · have different : c ≠ n := by
              rintro rfl
              exact outside (by simp)
            simp [List.getLast?_cons, different]
        rw [← last', ← last]
        simp only [lastChild, setFirstChild, setLastChild, setPreviousSibling, setNextSibling,
          setParent, Function.update_self]
        congr
      · intro before a after split
        have different : a ≠ n := by
          rintro rfl
          exact outside (by simp [split])
        have link := chain (n :: before) a after (by rw [split]; rfl)
        rw [← link]
        exact Function.update_of_ne different _ _

theorem Linked.unlink (linked : nodes.Linked) (inside : nodes.parentNode child = some this) :
    (nodes.unlink this child).Linked := by
  obtain ⟨contents, lists⟩ := linked.lists
  rw [unlink_eq lists inside]
  exact linked.cut lists inside

theorem Acyclic.unlink (acyclic : nodes.Acyclic) : (nodes.unlink this child).Acyclic := by
  refine acyclic.mono fun n parent up => ?_
  rw [unlink_links] at up
  change Function.update nodes.parentNode child none n = some parent at up
  by_cases same : n = child
  · rw [same, Function.update_self] at up
    cases up
  · rwa [Function.update_of_ne same] at up

theorem Linked.cleared (linked : nodes.Linked) (lists : nodes.Lists contents) :
    (nodes.cleared this (contents this)).Linked := by
  have mine : ∀ c, c ∈ contents this ↔ nodes.parentNode c = some this := lists.parent this
  refine ⟨⟨Function.update contents this [], fun n => ?_, fun n c => ?_⟩, fun c unlinked => ?_⟩
  · by_cases same : n = this
    · rw [same, Function.update_self]
      change Links.Forms _ (Function.update nodes.children this {} this) _
      rw [Function.update_self]
      exact Links.Forms.nil
    · rw [Function.update_of_ne same]
      change Links.Forms _ (Function.update nodes.children this {} n) _
      rw [Function.update_of_ne same]
      have apart : ∀ b ∈ contents n, b ∉ contents this := by
        intro b member
        rw [mine, (lists.parent n b).mp member]
        exact fun equal => same (Option.some.inj equal)
      exact (lists.forms n).congr (fun b member => if_neg (apart b member))
        fun b member => if_neg (apart b member)
  · change _ ↔ (if c ∈ contents this then none else nodes.parentNode c) = _
    by_cases same : n = this
    · rw [same, Function.update_self]
      refine iff_of_false List.not_mem_nil ?_
      by_cases member : c ∈ contents this
      · rw [if_pos member]
        exact (Option.some_ne_none this).symm
      · rw [if_neg member]
        exact fun parent => member ((mine c).mpr parent)
    · rw [Function.update_of_ne same]
      by_cases member : c ∈ contents this
      · rw [if_pos member, lists.parent n c, (mine c).mp member]
        exact iff_of_false (fun equal => same (Option.some.inj equal).symm)
          (Option.some_ne_none n).symm
      · rw [if_neg member]
        exact lists.parent n c
  · by_cases member : c ∈ contents this
    · exact ⟨if_pos member, if_pos member⟩
    · have alone : nodes.parentNode c = none := (if_neg member).symm.trans unlinked
      obtain ⟨next, prev⟩ := linked.unlinked c alone
      exact ⟨(if_neg member).trans next, (if_neg member).trans prev⟩

end

end Nodes

/-- The numerals of the three elements below. -/
instance neZeroThree : NeZero 3 := ⟨nofun⟩

/-- Three elements, each the only child of the one before it. -/
def chain : Nodes (Fin 3) where
  nodeType _ := .element
  document _ := 0
  inDocument _ := false
  parentNode n := if n = 0 then none else some (n - 1)
  siblings := ⟨fun _ => none, fun _ => none⟩
  children n := if n = 2 then {} else ⟨some (n + 1), some (n + 1)⟩

theorem chain_forest : chain.Forest := by
  refine ⟨⟨⟨fun n => if n = 2 then [] else [n + 1], ?_, ?_⟩, fun _ _ => ⟨rfl, rfl⟩⟩, ?_⟩
  · intro n
    by_cases last : n = 2
    · rw [if_pos last, show chain.children n = {} from if_pos last]
      exact Links.Forms.nil
    · rw [if_neg last, show chain.children n = ⟨some (n + 1), some (n + 1)⟩ from if_neg last]
      refine ⟨List.nodup_singleton _, rfl, rfl, fun before a after split => ?_⟩
      cases before with
      | nil =>
        cases split
        exact ⟨rfl, rfl⟩
      | cons b before =>
        have rest := (List.cons.inj split).2
        cases before <;> cases rest
  · decide
  · have down : ∀ a b, Relation.TransGen chain.Up a b → b < a := by
      have up : ∀ a b, chain.Up a b → b < a := by
        unfold Nodes.Up
        decide
      intro a b way
      induction way with
      | single step => exact up _ _ step
      | tail _ step ih => exact (up _ _ step).trans ih
    exact fun n cycle => lt_irrefl n (down n n cycle)

end WkcBrowser.Dom
