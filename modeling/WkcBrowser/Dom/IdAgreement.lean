import WkcBrowser.Dom.IdChanges
import WkcBrowser.Dom.Mutations

/-! When what a document keeps by the ids agrees with a scan of its tree after any changes. -/

namespace WkcBrowser.Dom

open Lib Wtf

section
variable {N : Type} [Fintype N] [DecidableEq N]

/-- A child without a parent came below the parent. -/
structure Nodes.Joined (nodes nodes' : Nodes N) (this child : N) : Prop where
  forest : nodes'.Forest
  up : nodes'.parentNode child = some this
  nodeType : nodes'.nodeType = nodes.nodeType
  inDocument : nodes'.inDocument = nodes.inDocument
  below : nodes'.inOrder child = nodes.inOrder child
  above : ∀ root, nodes.parentNode root = none → root ≠ child →
    nodes'.parentNode root = none ∧
      nodes.inOrder root = (nodes'.inOrder root).filter (!nodes'.inSubtree child ·) ∧
      (nodes'.inSubtree root child = false → nodes.inOrder root = nodes'.inOrder root)

theorem State.joined_link {s : State N} {this child : N} {place : Place N}
    (forest : s.nodes.Forest) (ready : s.linkable this place child = true)
    (apart : s.nodes.inSubtree child this = false) :
    s.nodes.Joined (s.link this place child) this child := by
  obtain ⟨contents, lists⟩ := forest.linked.lists
  obtain ⟨before, after, whole, same⟩ := link_eq forest.linked lists ready
  have alone := alone_of_linkable ready
  have linked : (s.link this place child).Forest :=
    ⟨linked_link forest.linked ready, (acyclic_link_iff forest ready).mpr apart⟩
  have up : (s.link this place child).parentNode child = some this := by
    rw [same]
    exact Function.update_self ..
  have spliced := lists.spliced whole alone
  rw [← same] at spliced
  have back : ((s.link this place child).unlink this child).Lists contents := by
    have cut := spliced.cut (Function.update_self this (before ++ child :: after) contents)
    rw [← Nodes.unlink_eq spliced up, Function.update_idem, ← whole, Function.update_eq_self] at cut
    exact cut
  have order : ∀ root,
      ((s.link this place child).unlink this child).inOrder root = s.nodes.inOrder root :=
    fun root => (back.inOrder_spec linked.acyclic.unlink root).unique
      (lists.inOrder_spec forest.acyclic root)
  have irreflexive : (s.link this place child).isDescendantOf child child = false := by
    rw [← Bool.not_eq_true, linked.acyclic.isDescendantOf_iff]
    exact linked.acyclic child
  refine ⟨linked, up, ?_, ?_, ?_, fun root top other => ?_⟩
  · rw [same]
    rfl
  · rw [same]
    rfl
  · rw [← order child, spliced.inOrder_unlink_other linked.acyclic up irreflexive]
  · have top' : (s.link this place child).parentNode root = none := by
      rw [same]
      exact (Function.update_of_ne other ..).trans top
    obtain ⟨-, leaves, stays⟩ := linked.inOrder_unlink top' up
    rw [order] at leaves stays
    exact ⟨top', leaves, stays⟩

/-- A child went from its parent. -/
structure Nodes.Parted (nodes nodes' : Nodes N) (child : N) : Prop where
  forest : nodes'.Forest
  nodeType : nodes'.nodeType = nodes.nodeType
  inDocument : nodes'.inDocument = nodes.inDocument
  below : nodes'.inOrder child = nodes.inOrder child
  above : ∀ root, nodes.parentNode root = none → root ≠ child →
    nodes'.parentNode root = none ∧
      nodes'.inOrder root = (nodes.inOrder root).filter (!nodes.inSubtree child ·) ∧
      (nodes.inSubtree root child = false → nodes'.inOrder root = nodes.inOrder root)

theorem Nodes.parted_unlink {nodes : Nodes N} {parent child : N} (forest : nodes.Forest)
    (up : nodes.parentNode child = some parent) : nodes.Parted (nodes.unlink parent child) child := by
  obtain ⟨contents, lists⟩ := forest.linked.lists
  have same := unlink_eq lists up
  have irreflexive : nodes.isDescendantOf child child = false := by
    rw [← Bool.not_eq_true, forest.acyclic.isDescendantOf_iff]
    exact forest.acyclic child
  refine ⟨⟨forest.linked.unlink up, forest.acyclic.unlink⟩, ?_, ?_, ?_, fun root top other => ?_⟩
  · rw [same]
    rfl
  · rw [same]
    rfl
  · exact lists.inOrder_unlink_other forest.acyclic up irreflexive
  · obtain ⟨-, leaves, stays⟩ := forest.inOrder_unlink top up
    refine ⟨?_, leaves, stays⟩
    rw [same]
    exact (Function.update_of_ne other ..).trans top

/-- The tree of a root is the subtree of a node in it and the rest. -/
theorem Nodes.Forest.inOrder_perm {nodes : Nodes N} {root child : N} (forest : nodes.Forest)
    (inside : child ∈ nodes.inOrder root) :
    (nodes.inOrder child ++ (nodes.inOrder root).filter (!nodes.inSubtree child ·)).Perm
      (nodes.inOrder root) := by
  have parts := List.filter_append_perm (nodes.inSubtree child) (nodes.inOrder root)
  refine List.Perm.trans (List.Perm.append_right _ ?_) parts
  refine (List.perm_ext_iff_of_nodup forest.nodup_inOrder (forest.nodup_inOrder.filter _)).mpr ?_
  intro n
  rw [List.mem_filter, forest.mem_inOrder_iff]
  constructor
  · intro below
    refine ⟨?_, below⟩
    rw [forest.mem_inOrder_iff, forest.acyclic.inSubtree_iff] at inside ⊢
    exact (forest.acyclic.inSubtree_iff.mp below).trans inside
  · exact fun both => both.2

namespace ElementIds

variable {ids : ElementIds N}

omit [Fintype N] [DecidableEq N] in
theorem registers_congr {ids' : ElementIds N} (nodeType : ids'.nodes.nodeType = ids.nodes.nodeType)
    (hasID : ids'.hasID = ids.hasID) (id : ids'.id = ids.id) : ids'.registers = ids.registers := by
  funext n
  rw [registers, registers, isElementNode, isElementNode, nodeType, hasID, id]

omit [DecidableEq N] in
theorem Valid.document_ne (valid : ids.Valid) {parent child : N}
    (up : ids.nodes.parentNode child = some parent) : ids.document ≠ child := by
  rintro rfl
  rw [valid.top] at up
  cases up

omit [Fintype N] [DecidableEq N] in
theorem Keeps.of_maps {ids' : ElementIds N} {id : N → AtomicString} {elements : List N}
    (keeps : ids.Keeps id elements) (elementsById : ids'.elementsById = ids.elementsById)
    (duplicateIds : ids'.duplicateIds = ids.duplicateIds) : ids'.Keeps id elements := by
  refine ⟨keeps.nodup, fun key filled => ?_, fun key filled e found => ?_⟩
  · rw [kept, elementsById, duplicateIds]
    exact keeps.count key filled
  · rw [elementsById] at found
    exact keeps.cached key filled e found

/-- The tree changed, and elements of some nodes that do not register count on one side only. -/
structure Changed (ids ids' : ElementIds N) (ns : List N) : Prop where
  document : ids'.document = ids.document
  styled : ids'.styled = ids.styled
  id : ids'.id = ids.id
  hasID : ids'.hasID = ids.hasID
  forest : ids'.nodes.Forest
  nodeType : ids'.nodes.nodeType = ids.nodes.nodeType
  top : ids'.nodes.parentNode ids.document = none
  inDocument : ∀ n, ids'.nodes.inDocument n = true ↔ n ∈ ids'.nodes.inOrder ids.document
  counts : ∀ key ≠ [],
    ids'.kept key + (named ids.id (ids.unregistered ns) key).length =
        (named ids.id ids'.elements key).length ∨
      ids'.kept key = (named ids.id ids'.elements key).length +
        (named ids.id (ids.unregistered ns) key).length
  first : (∀ key ≠ [], named ids.id (ids.unregistered ns) key = []) → ids'.First

omit [DecidableEq N] in
theorem Changed.counted_iff {ids' : ElementIds N} {ns : List N} (changed : ids.Changed ids' ns)
    (valid : ids.Valid) : ids'.Counted ↔ ids.AllStyled ns := by
  rw [valid.allStyled_iff]
  unfold Counted
  rw [changed.id]
  refine forall_congr' fun key => forall_congr' fun filled => ?_
  rw [← List.length_eq_zero_iff]
  have counts := changed.counts key filled
  omega

omit [DecidableEq N] in
theorem Changed.valid {ids' : ElementIds N} {ns : List N} (changed : ids.Changed ids' ns)
    (valid : ids.Valid) (styled : ids.AllStyled ns) : ids'.Valid where
  forest := changed.forest
  isDocument := by
    rw [changed.document, changed.nodeType]
    exact valid.isDocument
  top := by
    rw [changed.document]
    exact changed.top
  inDocument := by
    rw [changed.document]
    exact changed.inDocument
  hasID := by
    rw [changed.hasID, changed.styled, changed.id]
    exact valid.hasID
  counted := (changed.counted_iff valid).mpr styled
  first := changed.first ((valid.allStyled_iff ns).mp styled)

omit [DecidableEq N] in
/-- A change that leaves the document as it is. -/
theorem Valid.changed_outside (valid : ids.Valid) {nodes : Nodes N} (forest : nodes.Forest)
    (nodeType : nodes.nodeType = ids.nodes.nodeType) (inDocument : nodes.inDocument = ids.nodes.inDocument)
    (top : nodes.parentNode ids.document = none)
    (same : nodes.inOrder ids.document = ids.nodes.inOrder ids.document) :
    ids.Changed { ids with nodes } [] := by
  have elements : ({ ids with nodes } : ElementIds N).elements = ids.elements := by
    unfold ElementIds.elements
    dsimp only
    rw [same]
    refine List.filter_congr fun n _ => ?_
    rw [isElementNode, isElementNode, nodeType]
  refine ⟨rfl, rfl, rfl, rfl, forest, nodeType, top, fun n => ?_, fun key filled => .inl ?_,
    fun _ key filled e found => ?_⟩
  · rw [inDocument, same]
    exact valid.inDocument n
  · rw [elements]
    exact valid.counted key filled
  · rw [elements]
    exact valid.first key filled e found

/-! Removals. -/

omit [Fintype N] in
theorem foldl_elementRemoved_frame (ids : ElementIds N) (ns : List N) :
    ∃ elementsById duplicateIds,
      ns.foldl elementRemoved ids = { ids with elementsById, duplicateIds } := by
  induction ns generalizing ids with
  | nil => exact ⟨_, _, rfl⟩
  | cons n ns ih =>
    have one : ∃ elementsById duplicateIds,
        ids.elementRemoved n = { ids with elementsById, duplicateIds } := by
      rw [elementRemoved]
      split
      · exact ids.updateId_frame n (ids.id n) none
      · exact ⟨_, _, rfl⟩
    obtain ⟨elementsById, duplicateIds, frame⟩ := one
    rw [List.foldl_cons, frame]
    exact ih _

/-- What elements that are removed leave in the lists. -/
theorem Valid.foldl_elementRemoved (valid : ids.Valid) {nodes : Nodes N} {ns rest : List N}
    (nodeType : nodes.nodeType = ids.nodes.nodeType) (inside : ∀ n ∈ ns, nodes.inDocument n = true)
    (split : (ns.filter ids.isElementNode ++ rest).Perm ids.elements) :
    (ns.foldl elementRemoved { ids with nodes }).Keeps ids.id (ids.unregistered ns ++ rest) ∧
      ∀ key a, (ns.foldl elementRemoved { ids with nodes }).elementsById key = some a →
        ids.elementsById key = some a := by
  have registers : ({ ids with nodes } : ElementIds N).registers = ids.registers :=
    registers_congr nodeType rfl rfl
  rw [@ElementIds.foldl_elementRemoved _ { ids with nodes } _ ns inside, registers]
  have named : ∀ n ∈ ns.filter ids.registers, (ids.id n).isEmpty = false := by
    intro n member
    exact (valid.registers_iff.mp (List.mem_filter.mp member).2).2.1
  have parts := (valid.registered_perm ns).append_right rest
  rw [List.append_assoc] at parts
  have before : ({ ids with nodes } : ElementIds N).Keeps ids.id
      (ns.filter ids.registers ++ (ids.unregistered ns ++ rest)) :=
    (valid.keeps.perm (parts.trans split)).of_maps rfl rfl
  refine ⟨before.foldl_remove named, fun key a found => ?_⟩
  have earlier := cached_foldl_remove found
  exact earlier

/-- The nodes that leave the document. -/
def leaving (ids : ElementIds N) (child : N) : List N :=
  if ids.nodes.inDocument child ∧ (ids.nodes.parentNode child).isSome then ids.nodes.inOrder child
  else []

theorem Valid.changed_remove (valid : ids.Valid) (child : N) :
    ids.Changed (ids.remove child) (ids.leaving child) := by
  unfold remove leaving
  cases up : ids.nodes.parentNode child with
  | none =>
    rw [if_neg fun both => Bool.false_ne_true both.2]
    exact valid.changed_outside valid.forest rfl rfl valid.top rfl
  | some parent =>
    dsimp only
    have parted := Nodes.parted_unlink valid.forest up
    obtain ⟨top, leaves, stays⟩ := parted.above ids.document valid.top (valid.document_ne up)
    have elements : (ids.elements.filter (!ids.nodes.inSubtree child ·)) =
        ((ids.nodes.unlink parent child).inOrder ids.document).filter ids.isElementNode := by
      rw [leaves, ElementIds.elements, List.filter_filter, List.filter_filter]
      simp only [Bool.and_comm]
    by_cases inside : ids.nodes.inDocument child = true
    · rw [parted.inDocument, if_pos inside, if_pos ⟨inside, rfl⟩, parted.below]
      have listed : child ∈ ids.nodes.inOrder ids.document := (valid.inDocument child).mp inside
      have below : ∀ n, (ids.nodes.unlink parent child).inSubtree child n =
          ids.nodes.inSubtree child n := by
        intro n
        rw [Bool.eq_iff_iff, ← parted.forest.mem_inOrder_iff, parted.below,
          valid.forest.mem_inOrder_iff]
      have split := (valid.forest.inOrder_perm listed).filter ids.isElementNode
      rw [List.filter_append, ← leaves] at split
      have through : ∀ n ∈ ids.nodes.inOrder child,
          (ids.nodes.unlink parent child).inDocument n = true := by
        intro n member
        rw [parted.inDocument, valid.inDocument]
        exact (valid.forest.inOrder_perm listed).mem_iff.mp (List.mem_append_left _ member)
      obtain ⟨keeps, earlier⟩ := valid.foldl_elementRemoved parted.nodeType through split
      obtain ⟨elementsById, duplicateIds, frame⟩ := foldl_elementRemoved_frame
        { ids with nodes := ids.nodes.unlink parent child } (ids.nodes.inOrder child)
      rw [frame] at keeps earlier ⊢
      dsimp only at earlier
      have links := @Nodes.sameLinks_removed _ _ _ (ids.nodes.unlink parent child) child
      have order : ((ids.nodes.unlink parent child).removed child).inOrder ids.document =
          (ids.nodes.unlink parent child).inOrder ids.document := links.inOrder parted.forest
      have types := (@Nodes.removed_nodeType _ _ _ (ids.nodes.unlink parent child) child).1
      have elements : ({ ids with
          nodes := (ids.nodes.unlink parent child).removed child
          elementsById
          duplicateIds } : ElementIds N).elements =
            ((ids.nodes.unlink parent child).inOrder ids.document).filter ids.isElementNode := by
        unfold ElementIds.elements
        dsimp only
        rw [order]
        refine List.filter_congr fun n _ => ?_
        rw [isElementNode, isElementNode, types, parted.nodeType]
      refine ⟨rfl, rfl, rfl, rfl, links.forest.mpr parted.forest, types.trans parted.nodeType,
        links.parentNode.symm ▸ top, fun n => ?_, fun key filled => .inr ?_,
        fun nobody key filled e found => ?_⟩
      · dsimp only
        rw [order, leaves, List.mem_filter, ← valid.inDocument, Nodes.removed, parted.inDocument,
          if_pos inside, Nodes.setInDocument]
        dsimp only
        rw [below, parted.inDocument]
        cases ids.nodes.inSubtree child n with
        | true => simp
        | false => simp
      · have count := keeps.count key filled
        rw [elements]
        unfold named at count ⊢
        rw [List.filter_append, List.length_append, Nat.add_comm] at count
        exact count
      · rw [elements]
        have member := keeps.cached key filled e found
        have first := valid.first key filled e (earlier key e found)
        have left : named ids.id (((ids.nodes.unlink parent child).inOrder ids.document).filter
            ids.isElementNode) key =
              (named ids.id ids.elements key).filter (!ids.nodes.inSubtree child ·) := by
          unfold named
          rw [leaves, ElementIds.elements, List.filter_filter, List.filter_filter,
            List.filter_filter, List.filter_filter]
          simp only [Bool.and_comm, Bool.and_left_comm]
        have rest : e ∈ named ids.id (((ids.nodes.unlink parent child).inOrder ids.document).filter
            ids.isElementNode) key := by
          unfold named at nobody member ⊢
          rwa [List.filter_append, nobody key filled, List.nil_append] at member
        rw [left] at rest ⊢
        exact head?_filter_of_mem first rest
    · have outside : ids.nodes.inSubtree ids.document child = false := by
        rw [valid.inDocument, valid.forest.mem_inOrder_iff, Bool.not_eq_true] at inside
        exact inside
      rw [parted.inDocument, if_neg inside, if_neg fun both => inside both.1]
      have kept : (ids.nodes.unlink parent child).removed child = ids.nodes.unlink parent child := by
        rw [Nodes.removed, parted.inDocument, if_neg inside]
      rw [kept]
      exact valid.changed_outside parted.forest parted.nodeType parted.inDocument top (stays outside)

/-! Insertions. -/

omit [Fintype N] in
theorem foldl_elementInserted_frame (ids : ElementIds N) (ns : List N) :
    ∃ elementsById duplicateIds,
      ns.foldl elementInserted ids = { ids with elementsById, duplicateIds } := by
  induction ns generalizing ids with
  | nil => exact ⟨_, _, rfl⟩
  | cons n ns ih =>
    have one : ∃ elementsById duplicateIds,
        ids.elementInserted n = { ids with elementsById, duplicateIds } := by
      rw [elementInserted]
      split
      · exact ids.updateId_frame n none (ids.id n)
      · exact ⟨_, _, rfl⟩
    obtain ⟨elementsById, duplicateIds, frame⟩ := one
    rw [List.foldl_cons, frame]
    exact ih _

/-- What elements that are inserted add to the lists. -/
theorem Valid.foldl_elementInserted (valid : ids.Valid) {nodes : Nodes N} {ns : List N}
    (nodeType : nodes.nodeType = ids.nodes.nodeType) (inside : ∀ n ∈ ns, nodes.inDocument n = true)
    (nodup : (ns ++ ids.elements).Nodup) :
    (ns.foldl elementInserted { ids with nodes }).Keeps ids.id
        (ns.filter ids.registers ++ ids.elements) ∧
      ∀ key a, (ns.foldl elementInserted { ids with nodes }).elementsById key = some a →
        (ns.foldl elementInserted { ids with nodes }).kept key = 1 ∨
          ids.elementsById key = some a ∧ ∀ n ∈ ns.filter ids.registers, ids.id n ≠ some key := by
  have registers : ({ ids with nodes } : ElementIds N).registers = ids.registers :=
    registers_congr nodeType rfl rfl
  rw [@ElementIds.foldl_elementInserted _ { ids with nodes } _ ns inside, registers]
  have named : ∀ n ∈ ns.filter ids.registers, (ids.id n).isEmpty = false := by
    intro n member
    exact (valid.registers_iff.mp (List.mem_filter.mp member).2).2.1
  have before : ({ ids with nodes } : ElementIds N).Keeps ids.id ids.elements :=
    valid.keeps.of_maps rfl rfl
  have apart : (ns.filter ids.registers ++ ids.elements).Nodup :=
    nodup.sublist ((List.filter_sublist).append_right _)
  refine ⟨before.foldl_add named apart, fun key a found => ?_⟩
  have known := cached_foldl_add named found
  exact known

/-- The nodes that come into the document. -/
def arriving (ids : ElementIds N) (this : N) (place : Place N) (child : N) : List N :=
  if ((⟨ids.nodes, none⟩ : State N).linkable this place child ∧
      ids.nodes.inSubtree child this = false ∧
      ids.nodes.childTypeAllowed this (ids.nodes.nodeType child)) ∧ ids.nodes.inDocument this then
    ids.nodes.inOrder child
  else []

theorem Valid.changed_insert (valid : ids.Valid) (this : N) (place : Place N) (child : N) :
    ids.Changed (ids.insert this place child) (ids.arriving this place child) := by
  unfold insert arriving
  dsimp only
  by_cases performed : (⟨ids.nodes, none⟩ : State N).linkable this place child = true ∧
      ids.nodes.inSubtree child this = false ∧
      ids.nodes.childTypeAllowed this (ids.nodes.nodeType child) = true
  swap
  · rw [if_neg performed, if_neg fun both => performed both.1]
    exact valid.changed_outside valid.forest rfl rfl valid.top rfl
  obtain ⟨ready, apart, allowed⟩ := performed
  have joined := State.joined_link valid.forest ready apart
  have other : ids.document ≠ child := by
    rintro rfl
    rw [valid.isDocument] at allowed
    unfold Nodes.childTypeAllowed at allowed
    split at allowed <;>
      simp [Nodes.documentChildTypeAllowed, Nodes.elementChildTypeAllowed] at allowed
  obtain ⟨top, comes, stays⟩ := joined.above ids.document valid.top other
  rw [if_pos ⟨ready, apart, allowed⟩]
  generalize (⟨ids.nodes, none⟩ : State N).link this place child = nodes at joined top comes stays ⊢
  -- The child is in the document when its parent is.
  have below : nodes.inSubtree child this = false := by
    rw [← Bool.not_eq_true, joined.forest.acyclic.inSubtree_iff]
    exact fun above => joined.forest.acyclic this (Relation.TransGen.tail' above joined.up)
  have within : child ∈ nodes.inOrder ids.document ↔ ids.nodes.inDocument this = true := by
    rw [valid.inDocument, comes, List.mem_filter, below, joined.forest.mem_inOrder_iff,
      joined.forest.mem_inOrder_iff, joined.forest.acyclic.inSubtree_iff,
      joined.forest.acyclic.inSubtree_iff]
    constructor
    · intro above
      obtain same | ⟨parent, up, higher⟩ := Relation.ReflTransGen.cases_head above
      · exact absurd same.symm other
      · rw [Nodes.Up, joined.up] at up
        rw [Option.some.inj up]
        exact ⟨higher, rfl⟩
    · exact fun both => .head joined.up both.1
  rw [joined.inDocument]
  by_cases inside : ids.nodes.inDocument this = true
  · rw [if_pos inside, if_pos ⟨⟨ready, apart, allowed⟩, inside⟩]
    have listed := within.mpr inside
    have whole := joined.forest.inOrder_perm listed
    have links := @Nodes.sameLinks_inserted _ _ _ nodes child
    have types : (nodes.inserted child).nodeType = ids.nodes.nodeType :=
      Nodes.inserted_nodeType.1.trans joined.nodeType
    have order : (nodes.inserted child).inOrder ids.document = nodes.inOrder ids.document :=
      links.inOrder joined.forest
    have marked : ∀ n, (nodes.inserted child).inDocument n = true ↔ n ∈ nodes.inOrder ids.document := by
      intro n
      rw [Nodes.inserted, joined.up]
      dsimp only
      rw [joined.inDocument, if_pos inside, Nodes.setInDocument]
      dsimp only
      rw [joined.inDocument, ← whole.mem_iff, ← comes, List.mem_append, ← valid.inDocument,
        joined.forest.mem_inOrder_iff]
      cases nodes.inSubtree child n with
      | true => simp
      | false => simp
    have walk : (postorderTo nodes.childNodes (Fintype.card N) child).Perm (ids.nodes.inOrder child) := by
      rw [← joined.below]
      exact postorderTo_perm _ _
    generalize postorderTo nodes.childNodes (Fintype.card N) child = ns at walk ⊢
    have split : (ids.nodes.inOrder child ++ ids.nodes.inOrder ids.document).Perm
        (nodes.inOrder ids.document) := by
      rwa [joined.below, ← comes] at whole
    have through : ∀ n ∈ ns, (nodes.inserted child).inDocument n = true := by
      intro n member
      rw [marked, ← split.mem_iff]
      exact List.mem_append_left _ (walk.mem_iff.mp member)
    have nodup : (ns ++ ids.elements).Nodup := by
      have all : (ns ++ ids.nodes.inOrder ids.document).Nodup :=
        ((walk.append_right _).trans split).nodup_iff.mpr joined.forest.nodup_inOrder
      exact all.sublist (List.filter_sublist.append_left _)
    obtain ⟨keeps, earlier⟩ := valid.foldl_elementInserted types through nodup
    obtain ⟨elementsById, duplicateIds, frame⟩ :=
      foldl_elementInserted_frame { ids with nodes := nodes.inserted child } ns
    rw [frame] at keeps earlier ⊢
    dsimp only at earlier
    generalize shape : ({ ids with nodes := nodes.inserted child, elementsById, duplicateIds } :
      ElementIds N) = ids' at keeps earlier ⊢
    have isElement : ids'.isElementNode = ids.isElementNode := by
      funext n
      rw [← shape, isElementNode, isElementNode, types]
    have parts : (ids.unregistered ns ++ (ns.filter ids.registers ++ ids.elements)).Perm
        ids'.elements := by
      have elements : ids'.elements = (nodes.inOrder ids.document).filter ids.isElementNode := by
        rw [ElementIds.elements, isElement, ← shape, order]
      have all := ((walk.append_right _).trans split).filter ids.isElementNode
      rw [List.filter_append] at all
      rw [elements, ← List.append_assoc]
      refine List.Perm.trans (List.Perm.append_right _ ?_) all
      exact List.perm_append_comm.trans (valid.registered_perm ns)
    have counts : ∀ key ≠ [], ids'.kept key + (named ids.id (ids.unregistered ns) key).length =
        (named ids.id ids'.elements key).length := by
      intro key filled
      have count := keeps.count key filled
      have length := (parts.filter fun n => ids.id n = some key).length_eq
      rw [List.filter_append, List.length_append] at length
      unfold named at count ⊢
      omega
    have same : ∀ key, (named ids.id (ids.unregistered ns) key).Perm
        (named ids.id (ids.unregistered (ids.nodes.inOrder child)) key) :=
      fun key => ((walk.filter _).filter _).filter _
    have documents : ids'.document = ids.document := by rw [← shape]
    have forest : ids'.nodes.Forest := by
      rw [← shape]
      exact links.forest.mpr joined.forest
    have tops : ids'.nodes.parentNode ids.document = none := by
      rw [← shape]
      exact links.parentNode ▸ top
    have inDocument : ∀ n, ids'.nodes.inDocument n = true ↔ n ∈ ids'.nodes.inOrder ids.document := by
      intro n
      rw [← shape]
      exact order ▸ marked n
    have id : ids'.id = ids.id := by rw [← shape]
    refine ⟨documents, by rw [← shape], id, by rw [← shape], forest, by rw [← shape, types], tops,
      inDocument, fun key filled => .inl ?_, fun nobody key filled e found => ?_⟩
    · rw [← (same key).length_eq]
      exact counts key filled
    · have none : named ids.id (ids.unregistered ns) key = [] := by
        have empty := same key
        rw [nobody key filled] at empty
        exact empty.eq_nil
      have count := counts key filled
      rw [none, List.length_nil, Nat.add_zero] at count
      rw [id]
      obtain alone | ⟨before, others⟩ := earlier key e (by rwa [← shape] at found)
      · have member : e ∈ named ids.id ids'.elements key := by
          refine (parts.filter _).mem_iff.mp ?_
          rw [List.filter_append]
          exact List.mem_append_right _ (keeps.cached key filled e found)
        rw [alone] at count
        obtain ⟨only, single⟩ := List.length_eq_one_iff.mp count.symm
        rw [single] at member ⊢
        rw [List.mem_singleton.mp member]
        rfl
      · have newcomers : named ids.id (ns.filter ids.registers) key = [] :=
          List.filter_eq_nil_iff.mpr fun n member is =>
            others n member (of_decide_eq_true is)
        have old := keeps.count key filled
        unfold named at newcomers old
        rw [List.filter_append, newcomers, List.nil_append] at old
        have sublist : (named ids.id ids.elements key).Sublist (named ids.id ids'.elements key) := by
          refine List.Sublist.filter _ ?_
          rw [ElementIds.elements, ElementIds.elements, isElement, ← shape]
          dsimp only
          rw [order, comes]
          exact List.Sublist.filter _ List.filter_sublist
        have equal : (named ids.id ids.elements key).length =
            (named ids.id ids'.elements key).length := old.symm.trans count
        rw [← sublist.eq_of_length equal]
        exact valid.first key filled e before
  · rw [if_neg inside, if_neg fun both => inside both.2]
    have kept : nodes.inserted child = nodes := by
      rw [Nodes.inserted, joined.up]
      dsimp only
      rw [joined.inDocument, if_neg inside]
    have outside : nodes.inSubtree ids.document child = false := by
      rw [← within, joined.forest.mem_inOrder_iff, Bool.not_eq_true] at inside
      exact inside
    rw [kept]
    exact valid.changed_outside joined.forest joined.nodeType joined.inDocument top
      (stays outside).symm

/-! Runs. -/

/-- Elements that come into the document or leave it with their ids keep the flag of it, an `Attr`
gets no other value for an element in the document, and no lookup scans past an element. -/
def Registered (ids : ElementIds N) : Event N → Prop
  | .insert this place child => ids.AllStyled (ids.arriving this place child)
  | .remove child => ids.AllStyled (ids.leaving child)
  | .setAttribute _ _ => True
  | .setAttrValue element value => ids.AttrSettled element value
  | .getElementById elementId => ids.ScanStyled elementId

theorem Valid.agrees_iff (valid : ids.Valid) (event : Event N) :
    ids.Agrees event ↔ ids.Registered event := by
  cases event with
  | insert this place child =>
    exact (and_iff_right trivial).trans ((valid.changed_insert this place child).counted_iff valid)
  | remove child => exact (and_iff_right trivial).trans ((valid.changed_remove child).counted_iff valid)
  | setAttribute element value =>
    exact iff_of_true ⟨trivial, (valid.setAttribute element value).counted⟩ trivial
  | setAttrValue element value => exact (and_iff_right trivial).trans valid.counted_setAttrValue_iff
  | getElementById elementId =>
    exact (and_iff_left (valid.counted_getElementById elementId)).trans
      (valid.getElementById_eq_iff elementId)

theorem Valid.step (valid : ids.Valid) (event : Event N) (registered : ids.Registered event) :
    (ids.step event).Valid := by
  cases event with
  | insert this place child => exact (valid.changed_insert this place child).valid valid registered
  | remove child => exact (valid.changed_remove child).valid valid registered
  | setAttribute element value => exact valid.setAttribute element value
  | setAttrValue element value => exact valid.setAttrValue registered
  | getElementById elementId => exact valid.getElementById registered

end ElementIds

/-- A document without children, and the nodes made for it. -/
structure NewDocument (N : Type) [Fintype N] [DecidableEq N] where
  nodes : Nodes N
  document : N
  styled : N → Bool
  id : N → AtomicString
  forest : nodes.Forest
  isDocument : nodes.nodeType document = .document
  top : nodes.parentNode document = none
  empty : nodes.firstChild document = none
  inDocument : ∀ n, nodes.inDocument n = true ↔ n = document

namespace NewDocument

variable (start : NewDocument N)

def elementIds : ElementIds N where
  nodes := start.nodes
  document := start.document
  styled := start.styled
  id := start.id
  hasID n := start.styled n && decide (start.id n ≠ none)

theorem inOrder_eq : start.nodes.inOrder start.document = [start.document] := by
  obtain ⟨contents, lists⟩ := start.forest.linked.lists
  have nobody : contents start.document = [] := by
    have head : start.nodes.firstChild start.document = (contents start.document).head? :=
      (lists.forms start.document).head
    rw [start.empty] at head
    exact List.head?_eq_none_iff.mp head.symm
  obtain ⟨below, order, inside⟩ :=
    (lists.inOrder_spec start.forest.acyclic start.document).below_root
  rw [nobody] at inside
  cases inside
  exact order

theorem valid_elementIds : start.elementIds.Valid := by
  have elements : start.elementIds.elements = [] := by
    have plain : ¬start.elementIds.isElementNode start.document = true := by
      rw [ElementIds.isElementNode, elementIds, start.isDocument]
      decide
    rw [ElementIds.elements]
    exact (congrArg _ start.inOrder_eq).trans (List.filter_cons_of_neg plain)
  refine ⟨start.forest, start.isDocument, start.top, fun n => ?_, fun n => rfl, fun key _ => ?_,
    fun key _ e found => ?_⟩
  · rw [elementIds, start.inDocument, start.inOrder_eq, List.mem_singleton]
  · rw [elements]
    rfl
  · cases found

/-- Over a whole history of changes and lookups, the lookups agree with scans of the document and the
counts with its elements exactly when every step keeps the elements registered. -/
theorem scans_along_iff (events : List (ElementIds.Event N)) :
    Along ElementIds.step ElementIds.Agrees start.elementIds events ↔
      Along ElementIds.step ElementIds.Registered start.elementIds events := by
  have all : Along ElementIds.step (fun _ _ => True) start.elementIds events :=
    along_of_forall (fun _ _ => trivial) _ _
  exact along_iff ElementIds.Valid (fun _ event valid _ => valid.agrees_iff event)
    (fun _ event valid _ agrees => valid.step event ((valid.agrees_iff event).mp agrees)) _ _
    start.valid_elementIds all

end NewDocument

end

/-- A document and styled elements of which one has the id "a". -/
def oneId : NewDocument (Fin 4) where
  nodes := threeElements
  document := 0
  styled _ := true
  id n := if n = 1 then some [97] else none
  forest := threeElements_forest
  isDocument := rfl
  top := rfl
  empty := rfl
  inDocument _ := decide_eq_true_iff

/-- After the value of the `Attr` becomes "b" the element is still found by "a". -/
theorem not_scans : ¬Along ElementIds.step ElementIds.Agrees oneId.elementIds
    [.insert 0 .last 1, .setAttrValue 1 [98], .getElementById (some [97])] := by
  intro along
  have found := along.2.2.1.1
  revert found
  decide

end WkcBrowser.Dom
