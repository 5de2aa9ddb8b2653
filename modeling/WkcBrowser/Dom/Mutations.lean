import WkcBrowser.Dom.ContainerNode
import WkcBrowser.Dom.Forest

/-! The nodes stay a forest while handlers run, as long as no node is linked below itself. The lists of
children are kept in any case: only the hierarchy is checked too early. -/

namespace WkcBrowser.Dom

open Lib

variable {N : Type} [DecidableEq N]

namespace Nodes

variable [Fintype N] {nodes : Nodes N} {contents : N → List N} {this child : N}

theorem sameLinks_checkChild (newChild : Option N) (typesAllowed : N → Bool) :
    nodes.SameLinks (nodes.checkChild this newChild typesAllowed).1 := by
  unfold checkChild
  cases newChild with
  | none => exact .refl nodes
  | some newChild =>
    dsimp only
    split_ifs <;> exact ⟨rfl, rfl, rfl⟩

theorem sameLinks_inserted : nodes.SameLinks (nodes.inserted child) := by
  unfold inserted
  cases nodes.parentNode child with
  | none => exact .refl nodes
  | some parent =>
    dsimp only
    split_ifs <;> exact ⟨rfl, rfl, rfl⟩

theorem sameLinks_removed : nodes.SameLinks (nodes.removed child) := by
  unfold removed
  split_ifs <;> exact ⟨rfl, rfl, rfl⟩

theorem inserted_nodeType : (nodes.inserted child).nodeType = nodes.nodeType ∧
    (nodes.inserted child).document = nodes.document := by
  unfold inserted
  cases nodes.parentNode child with
  | none => exact ⟨rfl, rfl⟩
  | some parent =>
    dsimp only
    split_ifs <;> exact ⟨rfl, rfl⟩

theorem removed_nodeType : (nodes.removed child).nodeType = nodes.nodeType ∧
    (nodes.removed child).document = nodes.document := by
  unfold removed
  split_ifs <;> exact ⟨rfl, rfl⟩

theorem sameLinks_foldl_removed (children : List N) :
    nodes.SameLinks (children.foldl removed nodes) := by
  induction children generalizing nodes with
  | nil => exact .refl nodes
  | cons child children ih => exact sameLinks_removed.trans ih

theorem Lists.unlinkAll_eq (lists : nodes.Lists contents) :
    Nodes.unlinkAll this (Fintype.card N) nodes = nodes.cleared this (contents this) := by
  have forms := lists.forms this
  exact Nodes.unlinkAll_eq _ _ forms.nodup.length_le_card forms.head forms.tail
    (fun before a after split => (forms.links before a after split).1) forms.nodup

theorem Linked.unlinkAll (linked : nodes.Linked) :
    (Nodes.unlinkAll this (Fintype.card N) nodes).Linked := by
  obtain ⟨contents, lists⟩ := linked.lists
  rw [lists.unlinkAll_eq]
  exact linked.cleared lists

theorem Forest.unlinkAll (forest : nodes.Forest) :
    (Nodes.unlinkAll this (Fintype.card N) nodes).Forest := by
  obtain ⟨contents, lists⟩ := forest.linked.lists
  refine ⟨forest.linked.unlinkAll, ?_⟩
  rw [lists.unlinkAll_eq]
  refine forest.acyclic.mono fun n parent up => ?_
  change (if n ∈ contents this then none else nodes.parentNode n) = some parent at up
  by_cases member : n ∈ contents this
  · rw [if_pos member] at up
    cases up
  · rwa [if_neg member] at up

end Nodes

namespace State

variable {s : State N} {this child : N} {place : Place N}

theorem alone_of_linkable (ready : s.linkable this place child = true) :
    s.nodes.parentNode child = none := by
  unfold linkable at ready
  rw [Bool.and_eq_true, Option.isNone_iff_eq_none] at ready
  exact ready.2

/-- A child is linked between two neighbours. -/
theorem link_eq {contents : N → List N} (linked : s.nodes.Linked) (lists : s.nodes.Lists contents)
    (ready : s.linkable this place child = true) :
    ∃ before after, contents this = before ++ after ∧
      s.link this place child = s.nodes.spliced this child before.getLast? after.head? := by
  have alone := alone_of_linkable ready
  unfold linkable at ready
  have there := (Bool.and_eq_true_iff.mp ready).1
  have forms := lists.forms this
  unfold link
  cases place with
  | before next =>
    obtain ⟨before, after, whole⟩ := List.mem_iff_append.mp
      ((lists.parent this next).mpr (of_decide_eq_true there))
    have prev := (forms.links before next after whole).2
    refine ⟨before, next :: after, whole, ?_⟩
    dsimp only
    rw [Nodes.linkBefore_eq, ← prev]
    rfl
  | after prev =>
    cases prev with
    | none =>
      refine ⟨[], contents this, rfl, ?_⟩
      dsimp only
      rw [Nodes.linkAfter_eq, ← forms.head]
      rfl
    | some prev =>
      obtain ⟨before, after, whole⟩ := List.mem_iff_append.mp
        ((lists.parent this prev).mpr (of_decide_eq_true there))
      have next := (forms.links before prev after whole).1
      refine ⟨before ++ [prev], after, by simp [whole], ?_⟩
      dsimp only
      rw [Nodes.linkAfter_eq, ← next, List.getLast?_concat]
      rfl
  | last =>
    obtain ⟨next, prev⟩ := linked.unlinked child alone
    have other : s.nodes.lastChild this ≠ some child := by
      intro last
      have member := List.mem_of_mem_getLast? (forms.tail.symm.trans last)
      rw [lists.parent this child, alone] at member
      cases member
    refine ⟨contents this, [], by simp, ?_⟩
    dsimp only
    rw [Nodes.linkLast_eq next prev other, ← forms.tail]
    rfl

theorem linked_link (linked : s.nodes.Linked) (ready : s.linkable this place child = true) :
    (s.link this place child).Linked := by
  obtain ⟨contents, lists⟩ := linked.lists
  obtain ⟨before, after, whole, same⟩ := link_eq linked lists ready
  rw [same]
  exact linked.spliced lists whole (alone_of_linkable ready)

variable [Fintype N]

/-- A new link makes a cycle exactly when the check of the hierarchy would now fail. -/
theorem acyclic_link_iff (forest : s.nodes.Forest) (ready : s.linkable this place child = true) :
    (s.link this place child).Acyclic ↔ s.nodes.inSubtree child this = false := by
  obtain ⟨contents, lists⟩ := forest.linked.lists
  obtain ⟨before, after, whole, same⟩ := link_eq forest.linked lists ready
  rw [same, Nodes.acyclic_setParent forest.acyclic (alone_of_linkable ready) rfl,
    ← forest.acyclic.inSubtree_iff, Bool.not_eq_true]

/-- The container and the new child, when an item links one. -/
def newLink (s : State N) : Item N → Option (N × N)
  | .addChildren this place _ (some child) =>
    if !s.inPlace place child ∧ s.linkable this place child then some (this, child) else none
  | .addChild this place _ child _ =>
    if s.ec = none ∧ s.linkable this place child then some (this, child) else none
  | _ => none

theorem sameLinks_addChild {isFragment : Bool} {nextChild : Option N} :
    (if s.linkable this place child then s.link this place child else s.nodes).SameLinks
      (s.addChild this place isFragment child nextChild).1.nodes := by
  unfold addChild
  by_cases ready : s.linkable this place child
  · rw [if_pos ready, if_pos ready]
    cases place with
    | before next => exact .refl _
    | after prev => exact Nodes.sameLinks_inserted
    | last => exact .refl _
  · rw [if_neg ready, if_neg ready]
    exact .refl _

theorem sameLinks_appendChild (newChild : Option N) :
    s.nodes.SameLinks (s.appendChild this newChild).1.nodes := by
  have same : s.nodes.SameLinks (s.nodes.checkAddChild this newChild).1 :=
    Nodes.sameLinks_checkChild newChild _
  unfold appendChild
  generalize s.nodes.checkAddChild this newChild = checked at same ⊢
  obtain ⟨nodes, ec⟩ := checked
  cases ec with
  | some ec => exact same
  | none =>
    cases newChild with
    | none => exact .refl _
    | some newChild =>
      dsimp only
      split_ifs <;> exact same

theorem sameLinks_insertBefore (newChild refChild : Option N) :
    s.nodes.SameLinks (s.insertBefore this newChild refChild).1.nodes := by
  have same : s.nodes.SameLinks (s.nodes.checkAddChild this newChild).1 :=
    Nodes.sameLinks_checkChild newChild _
  unfold insertBefore
  cases refChild with
  | none => exact sameLinks_appendChild newChild
  | some refChild =>
    generalize s.nodes.checkAddChild this newChild = checked at same ⊢
    obtain ⟨nodes, ec⟩ := checked
    cases ec with
    | some ec => exact same
    | none =>
      cases newChild with
      | none => exact .refl _
      | some newChild =>
        dsimp only
        split_ifs <;> exact same

theorem sameLinks_replaceChild (newChild oldChild : Option N) :
    s.nodes.SameLinks (s.replaceChild this newChild oldChild).1.nodes := by
  have same : s.nodes.SameLinks (s.nodes.checkReplaceChild this newChild oldChild).1 :=
    Nodes.sameLinks_checkChild newChild _
  unfold replaceChild
  by_cases equal : oldChild = newChild
  · rw [if_pos equal]
    exact .refl _
  · rw [if_neg equal]
    generalize s.nodes.checkReplaceChild this newChild oldChild = checked at same ⊢
    obtain ⟨nodes, ec⟩ := checked
    cases ec with
    | some ec => exact same
    | none =>
      cases newChild with
      | none => exact .refl _
      | some newChild =>
        cases oldChild with
        | none => exact same
        | some oldChild =>
          dsimp only
          split_ifs <;> exact same

/-- The checks at the start of an operation leave all links. -/
theorem sameLinks_call (operation : Operation N) :
    s.nodes.SameLinks (s.call operation).1.nodes := by
  cases operation with
  | insertBefore this newChild refChild => exact sameLinks_insertBefore newChild refChild
  | replaceChild this newChild oldChild => exact sameLinks_replaceChild newChild oldChild
  | removeChild this oldChild => exact .refl _
  | removeChildren this =>
    unfold call removeChildren
    dsimp only
    cases s.nodes.firstChild this <;> exact .refl _
  | appendChild this newChild => exact sameLinks_appendChild newChild

/-- An item leaves the links, takes children out or links one. -/
theorem resume_cases (s : State N) (item : Item N) :
    (s.newLink item = none ∧ s.nodes.SameLinks (s.resume item).1.nodes) ∨
    (∃ this child, s.newLink item = none ∧ s.nodes.parentNode child = some this ∧
      (s.nodes.unlink this child).SameLinks (s.resume item).1.nodes) ∨
    (∃ this, s.newLink item = none ∧
      (Nodes.unlinkAll this (Fintype.card N) s.nodes).SameLinks (s.resume item).1.nodes) ∨
    ∃ this place child, s.newLink item = some (this, child) ∧
      s.linkable this place child = true ∧
      (s.link this place child).SameLinks (s.resume item).1.nodes := by
  cases item with
  | removeChild this oldChild =>
    refine .inl ⟨rfl, ?_⟩
    unfold resume
    cases oldChild with
    | none => 
      dsimp only
      split_ifs <;> exact .refl _
    | some oldChild =>
      dsimp only
      split_ifs <;> exact .refl _
  | willRemoveChild this child =>
    refine .inl ⟨rfl, ?_⟩
    unfold resume
    dsimp only
    split_ifs <;> exact .refl _
  | removeFocus this child =>
    unfold resume
    dsimp only
    by_cases inside : s.nodes.parentNode child = some this
    · rw [if_neg (not_not.mpr inside)]
      exact .inr (.inl ⟨this, child, rfl, inside, .refl _⟩)
    · rw [if_pos inside]
      exact .inl ⟨rfl, .refl _⟩
  | removedChild child => exact .inl ⟨rfl, Nodes.sameLinks_removed⟩
  | replace this newChild prev =>
    refine .inl ⟨rfl, ?_⟩
    unfold resume
    dsimp only
    split_ifs <;> exact .refl _
  | addChildren this place isFragment child =>
    cases child with
    | none => exact .inl ⟨rfl, .refl _⟩
    | some child =>
      unfold resume newLink addChildren
      dsimp only
      by_cases inPlace : s.inPlace place child = true
      · rw [if_pos inPlace, inPlace, if_neg (by simp)]
        exact .inl ⟨rfl, .refl _⟩
      · rw [if_neg inPlace, Bool.eq_false_of_not_eq_true inPlace]
        generalize (if isFragment = true then s.nodes.nextSibling child else none) = nextChild
        have link : (if s.linkable this place child then s.link this place child
            else s.nodes).SameLinks (s.addChild this place isFragment child nextChild).1.nodes :=
          sameLinks_addChild
        by_cases ready : s.linkable this place child = true
        · rw [if_pos ready] at link
          rw [if_pos ⟨rfl, ready⟩, alone_of_linkable ready]
          exact .inr (.inr (.inr ⟨this, place, child, rfl, ready, link⟩))
        · rw [if_neg ready] at link
          rw [if_neg fun both => ready both.2]
          cases s.nodes.parentNode child with
          | none => exact .inl ⟨rfl, link⟩
          | some oldParent => exact .inl ⟨rfl, .refl _⟩
  | addChild this place isFragment child nextChild =>
    have link : (if s.linkable this place child then s.link this place child
        else s.nodes).SameLinks (s.addChild this place isFragment child nextChild).1.nodes :=
      sameLinks_addChild
    unfold resume newLink
    dsimp only
    by_cases fine : s.ec = none
    · rw [if_neg (not_not.mpr fine)]
      by_cases ready : s.linkable this place child = true
      · rw [if_pos ready] at link
        rw [if_pos ⟨fine, ready⟩]
        exact .inr (.inr (.inr ⟨this, place, child, rfl, ready, link⟩))
      · rw [if_neg ready] at link
        rw [if_neg fun both => ready both.2]
        exact .inl ⟨rfl, link⟩
    · rw [if_pos fine, if_neg fun both => fine both.1]
      exact .inl ⟨rfl, .refl _⟩
  | childrenChanged this place isFragment child nextChild =>
    exact .inl ⟨rfl, Nodes.sameLinks_inserted⟩
  | childInserted this place isFragment nextChild => exact .inl ⟨rfl, .refl _⟩
  | subtreeModified => exact .inl ⟨rfl, .refl _⟩
  | willRemoveChildren this child =>
    refine .inl ⟨rfl, ?_⟩
    unfold resume
    dsimp only
    cases s.nodes.nextSibling child <;> exact .refl _
  | removeFocusBelow this => exact .inr (.inr (.inl ⟨this, rfl, .refl _⟩))
  | removedChildren children => exact .inl ⟨rfl, Nodes.sameLinks_foldl_removed children⟩

/-- What the check of the hierarchy says of the link that an item makes. -/
def linksApart (s : State N) (item : Item N) : Bool :=
  match s.newLink item with
  | some (this, child) => !s.nodes.inSubtree child this
  | none => true

theorem forest_resume_iff (forest : s.nodes.Forest) (item : Item N) :
    (s.resume item).1.nodes.Forest ↔ s.linksApart item = true := by
  unfold linksApart
  obtain ⟨none, same⟩ | ⟨this, child, none, inside, same⟩ | ⟨this, none, same⟩ |
    ⟨this, place, child, some, ready, same⟩ := resume_cases s item
  · rw [none, same.forest]
    exact iff_of_true forest rfl
  · rw [none, same.forest]
    exact iff_of_true ⟨forest.linked.unlink inside, forest.acyclic.unlink⟩ rfl
  · rw [none, same.forest]
    exact iff_of_true forest.unlinkAll rfl
  · rw [some, same.forest]
    dsimp only
    rw [Bool.not_eq_true', ← acyclic_link_iff forest ready]
    exact ⟨Nodes.Forest.acyclic, fun acyclic => ⟨linked_link forest.linked ready, acyclic⟩⟩

end State

section
variable [Fintype N]

/-- The container is not in the subtree of the child that the event links below it. -/
def LinksApart (now : Agenda (State N) (Item N)) : Event N → Bool
  | .resume => (now.items.head?.map now.state.linksApart).getD true
  | .call _ => true

/-- A call leaves the links, and an item that links keeps the forest when it links apart. -/
theorem forest_step_iff (now : Agenda (State N) (Item N)) (event : Event N)
    (forest : now.state.nodes.Forest) :
    (step now event).state.nodes.Forest ↔ LinksApart now event = true := by
  obtain ⟨s, items⟩ := now
  cases event with
  | resume =>
    cases items with
    | nil => exact iff_of_true forest rfl
    | cons item items => exact State.forest_resume_iff forest item
  | call operation =>
    refine iff_of_true ?_ rfl
    have called : (s.call operation).1.nodes.Forest := (State.sameLinks_call operation).forest.mpr forest
    cases items with
    | nil => exact called
    | cons item items =>
      by_cases dispatches : item.dispatches = true
      · rw [step_call dispatches]
        exact called
      · rw [step_call_refused dispatches]
        exact forest

/-- The nodes are a forest in every state of a run, whatever its handlers do, exactly when no node is
ever linked to a container inside its own subtree. -/
theorem forest_iff {nodes : Nodes N} (forest : nodes.Forest) (events : List (Event N)) :
    Along step (fun now event => (step now event).state.nodes.Forest) ⟨⟨nodes, none⟩, []⟩ events ↔
      Along step (fun now event => LinksApart now event = true) ⟨⟨nodes, none⟩, []⟩ events := by
  have admitted : Along step (fun _ _ => True) ⟨⟨nodes, none⟩, []⟩ events :=
    along_of_forall (fun _ _ => trivial) _ _
  exact along_iff (fun now => now.state.nodes.Forest)
    (fun now event forest _ => forest_step_iff now event forest)
    (fun _ _ _ _ forest => forest) _ _ forest admitted

end

/-- The numerals of the four nodes below. -/
instance neZeroFour : NeZero 4 := ⟨nofun⟩

/-- A document and three elements, of which the last is a child of the second. -/
def threeElements : Nodes (Fin 4) where
  nodeType n := if n = 0 then .document else .element
  document _ := 0
  inDocument n := n = 0
  parentNode n := if n = 3 then some 2 else none
  siblings := ⟨fun _ => none, fun _ => none⟩
  children n := if n = 2 then ⟨some 3, some 3⟩ else {}

theorem threeElements_forest : threeElements.Forest := by
  refine ⟨⟨⟨fun n => if n = 2 then [3] else [], ?_, ?_⟩, ?_⟩, ?_⟩
  · intro n
    by_cases container : n = 2
    · rw [container]
      refine ⟨List.nodup_singleton 3, rfl, rfl, fun before a after split => ?_⟩
      cases before with
      | nil =>
        cases split
        exact ⟨rfl, rfl⟩
      | cons b before =>
        have rest := (List.cons.inj split).2
        cases before <;> cases rest
    · rw [if_neg container, show threeElements.children n = {} from if_neg container]
      exact Links.Forms.nil
  · decide
  · exact fun _ _ => ⟨rfl, rfl⟩
  · intro n cycle
    have up : ∀ a b, threeElements.Up a b → a = 3 ∧ b = 2 := by
      unfold Nodes.Up
      decide
    have ends : ∀ a b, Relation.TransGen threeElements.Up a b → a = 3 ∧ b = 2 := by
      intro a b way
      induction way with
      | single step => exact up _ _ step
      | tail _ step ih => exact ⟨ih.1, (up _ _ step).2⟩
    obtain ⟨low, high⟩ := ends n n cycle
    exact absurd (low.symm.trans high) (by decide)

/-- The first element gets the last one; a handler of the removal puts it below the last one before. -/
def handlerMovesContainer : List (Event (Fin 4)) :=
  [.call (.appendChild 1 (some 3)), .resume, .resume, .call (.appendChild 3 (some 1)), .resume,
    .resume, .resume, .resume, .resume, .resume, .resume, .resume]

theorem not_forest : ∃ (nodes : Nodes (Fin 4)) (events : List (Event (Fin 4))), nodes.Forest ∧
    ¬Along step (fun now event => (step now event).state.nodes.Forest) ⟨⟨nodes, none⟩, []⟩
      events := by
  refine ⟨threeElements, handlerMovesContainer ++ [.resume], threeElements_forest, fun along => ?_⟩
  obtain ⟨-, forest, -⟩ := (along_append ..).mp along
  have down : (step (after step ⟨⟨threeElements, none⟩, []⟩ handlerMovesContainer)
      .resume).state.nodes.Up 1 3 := by
    unfold Nodes.Up
    decide
  have up : (step (after step ⟨⟨threeElements, none⟩, []⟩ handlerMovesContainer)
      .resume).state.nodes.Up 3 1 := by
    unfold Nodes.Up
    decide
  exact forest.acyclic 1 (.tail (.single down) up)

/-- Without that handler the last element is moved. -/
theorem forest_iff_moved :
    Along step (fun now event => (step now event).state.nodes.Forest) ⟨⟨threeElements, none⟩, []⟩
      (.call (.appendChild 1 (some 3)) :: List.replicate 10 .resume) :=
  (forest_iff threeElements_forest _).mpr (by decide)

end WkcBrowser.Dom
