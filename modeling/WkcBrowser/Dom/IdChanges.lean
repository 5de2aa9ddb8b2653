import WkcBrowser.Dom.IdLookups

/-! When changes of the attributes keep the elements that are counted by their ids. -/

namespace WkcBrowser.Dom

open Lib Wtf

section
variable {N : Type} [Fintype N] [DecidableEq N]

namespace ElementIds

variable {ids : ElementIds N} {element : N} {key : Text}

omit [Fintype N] in
/-- The flag of the element is what its id says. -/
theorem hasID_setAttributeValue (value : AtomicString)
    (before : ∀ n, ids.hasID n = (ids.styled n && decide (ids.id n ≠ none))) (n : N) :
    (ids.setAttributeValue element value).hasID n =
      ((ids.setAttributeValue element value).styled n &&
        decide ((ids.setAttributeValue element value).id n ≠ none)) := by
  unfold setAttributeValue attributeChanged
  dsimp only
  by_cases here : n = element
  · subst here
    by_cases styled : ids.styled n = true
    · simp [styled]
    · rw [Bool.not_eq_true] at styled
      simp [styled, before n]
  · split
    · simp [Function.update_of_ne here, before n]
    · simp [Function.update_of_ne here, before n]

omit [Fintype N] in
theorem setAttributeValue_frame (ids : ElementIds N) (element : N) (value : AtomicString) :
    ∃ hasID, ids.setAttributeValue element value =
      { ids with id := Function.update ids.id element value, hasID } := by
  unfold setAttributeValue attributeChanged
  split
  · exact ⟨_, rfl⟩
  · exact ⟨_, rfl⟩

omit [Fintype N] in
theorem named_update_outside {id : N → AtomicString} {value : AtomicString} {elements : List N}
    (outside : element ∉ elements) :
    named (Function.update id element value) elements key = named id elements key := by
  refine List.filter_congr fun n member => ?_
  have other : n ≠ element := by
    rintro rfl
    exact outside member
  rw [Function.update_of_ne other]

omit [Fintype N] in
theorem named_update_of_ne {id : N → AtomicString} {value : AtomicString} {elements : List N}
    (other : value ≠ some key) :
    named (Function.update id element value) elements key =
      (named id elements key).filter (· ≠ element) := by
  unfold named
  rw [List.filter_filter]
  refine List.filter_congr fun n _ => ?_
  by_cases here : n = element
  · simp [here, other]
  · simp [here]

omit [Fintype N] in
theorem updateId_frame (ids : ElementIds N) (element : N) (old value : AtomicString) :
    ∃ elementsById duplicateIds,
      ids.updateId element old value = { ids with elementsById, duplicateIds } := by
  unfold updateId
  split_ifs
  · exact ⟨_, _, rfl⟩
  · exact ⟨_, _, rfl⟩
  · obtain ⟨elementsById, duplicateIds, frame⟩ :=
      ids.removeElementById_frame (old.getD []) element
    rw [addElementById_eq, frame]
    exact ⟨_, _, rfl⟩
  · exact ids.removeElementById_frame (old.getD []) element
  · rw [addElementById_eq]
    exact ⟨_, _, rfl⟩
  · exact ⟨_, _, rfl⟩

omit [Fintype N] in
/-- The id of an element in the document changes. -/
theorem Keeps.updateId {elements : List N} {value : AtomicString} (keeps : ids.Keeps ids.id elements)
    (inside : ids.nodes.inDocument element = true) (member : element ∈ elements)
    (different : ids.id element ≠ value) :
    (ids.updateId element (ids.id element) value).Keeps
      (Function.update ids.id element value) elements := by
  have order : elements.Perm (element :: elements.erase element) := List.perm_cons_erase member
  have apart : element ∉ elements.erase element :=
    (List.nodup_cons.mp (order.nodup_iff.mp keeps.nodup)).1
  have whole : ids.Keeps ids.id (element :: elements.erase element) := keeps.perm order.symm
  -- The old id goes.
  have taken : (if !(ids.id element).isEmpty then
      ids.removeElementById ((ids.id element).getD []) element else ids).Keeps
        (Function.update ids.id element value) (elements.erase element) := by
    have same : ∀ key, named (Function.update ids.id element value) (elements.erase element) key =
        named ids.id (elements.erase element) key := fun key => named_update_outside apart
    have rest : (if !(ids.id element).isEmpty then
        ids.removeElementById ((ids.id element).getD []) element else ids).Keeps ids.id
          (elements.erase element) := by
      by_cases empty : (ids.id element).isEmpty = true
      · rw [empty, if_neg (by decide)]
        exact whole.tail empty
      · obtain ⟨key, filled, is⟩ := isEmpty_eq_false_iff.mp (Bool.eq_false_of_not_eq_true empty)
        rw [Bool.not_eq_true] at empty
        rw [empty, if_pos (by decide), is, Option.getD_some]
        exact whole.remove filled is
    refine ⟨rest.nodup, fun key filled => ?_, fun key filled e found => ?_⟩
    · rw [same]
      exact rest.count key filled
    · rw [same]
      exact rest.cached key filled e found
  -- The new id comes.
  have there : Function.update ids.id element value element = value := Function.update_self ..
  rw [ElementIds.updateId, inside, if_neg (by decide), if_neg different]
  dsimp only
  by_cases empty : value.isEmpty = true
  · rw [empty, if_neg (by decide)]
    exact (taken.cons apart (by rw [there, empty])).perm order
  · obtain ⟨key, filled, rfl⟩ := isEmpty_eq_false_iff.mp (Bool.eq_false_of_not_eq_true empty)
    rw [Bool.not_eq_true] at empty
    rw [empty, if_pos (by decide), Option.getD_some]
    exact (taken.add apart there).perm order

omit [Fintype N] in
/-- What is cached after an id changed. -/
theorem elementsById_updateId {old value : AtomicString} {a : N} (filled : key ≠ [])
    (inside : ids.nodes.inDocument element = true) (different : old ≠ value)
    (found : (ids.updateId element old value).elementsById key = some a) :
    (ids.updateId element old value).kept key = 1 ∧ value = some key ∨
      value ≠ some key ∧ ids.elementsById key = some a ∧ (old = some key → a ≠ element) := by
  rw [updateId, inside, if_neg (by decide), if_neg different] at found ⊢
  dsimp only at found ⊢
  have taken : ∀ b, (if !old.isEmpty then ids.removeElementById (old.getD []) element
      else ids).elementsById key = some b →
        ids.elementsById key = some b ∧ (old = some key → b ≠ element) := by
    intro b cached
    by_cases empty : old.isEmpty = true
    · rw [empty, if_neg (by decide)] at cached
      refine ⟨cached, ?_⟩
      rintro rfl
      exact absurd (List.isEmpty_iff.mp empty) filled
    · obtain ⟨own, -, rfl⟩ := isEmpty_eq_false_iff.mp (Bool.eq_false_of_not_eq_true empty)
      rw [Bool.not_eq_true] at empty
      rw [empty, if_pos (by decide), Option.getD_some] at cached
      obtain ⟨before, apart⟩ := elementsById_removeElementById cached
      exact ⟨before, fun same => apart (Option.some.inj same).symm⟩
  generalize (if !old.isEmpty then ids.removeElementById (old.getD []) element else ids) = now
    at found taken ⊢
  by_cases empty : value.isEmpty = true
  · rw [empty, if_neg (by decide)] at found
    have other : value ≠ some key := by
      rintro rfl
      exact filled (List.isEmpty_iff.mp empty)
    exact .inr ⟨other, taken a found⟩
  · obtain ⟨own, -, rfl⟩ := isEmpty_eq_false_iff.mp (Bool.eq_false_of_not_eq_true empty)
    rw [Bool.not_eq_true] at empty
    rw [empty, if_pos (by decide), Option.getD_some] at found ⊢
    by_cases same : key = own
    · subst same
      rw [addElementById_eq] at found
      dsimp only at found
      rw [Function.update_self] at found
      by_cases zero : now.kept key = 0
      · rw [kept_addElementById, zero]
        exact .inl ⟨rfl, rfl⟩
      · rw [if_neg zero] at found
        cases found
    · rw [addElementById_eq] at found
      dsimp only at found
      rw [Function.update_of_ne same] at found
      exact .inr ⟨fun equal => same (Option.some.inj equal).symm, taken a found⟩

omit [DecidableEq N] in
theorem Valid.mem_elements_iff (valid : ids.Valid) {n : N} :
    n ∈ ids.elements ↔ ids.nodes.inDocument n = true ∧ ids.isElementNode n = true := by
  rw [elements, List.mem_filter, valid.inDocument]

/-- Attributes that no element in the document has. -/
theorem Valid.setAttributeValue (valid : ids.Valid) {value : AtomicString}
    (kept : element ∈ ids.elements → ids.id element = value) :
    (ids.setAttributeValue element value).Valid := by
  have hasID := @hasID_setAttributeValue _ _ ids element value valid.hasID
  obtain ⟨flags, frame⟩ := ids.setAttributeValue_frame element value
  rw [frame] at hasID ⊢
  have same : ∀ key, named (Function.update ids.id element value) ids.elements key =
      named ids.id ids.elements key := by
    intro key
    by_cases member : element ∈ ids.elements
    · rw [← kept member, Function.update_eq_self]
    · exact named_update_outside member
  refine ⟨valid.forest, valid.isDocument, valid.top, valid.inDocument, hasID, fun key filled => ?_,
    fun key filled e cached => ?_⟩
  · exact (valid.counted key filled).trans (congrArg List.length (same key).symm)
  · exact (congrArg List.head? (same key)).trans (valid.first key filled e cached)

/-- `setAttribute` keeps what is counted. -/
theorem Valid.setAttribute (valid : ids.Valid) (element : N) (value : AtomicString) :
    (ids.setAttribute element value).Valid := by
  rw [ElementIds.setAttribute]
  by_cases isElement : ids.isElementNode element = true
  swap
  · rw [Bool.not_eq_true] at isElement
    rw [isElement, if_pos (by decide)]
    exact valid
  rw [isElement, if_neg (by decide)]
  dsimp only
  by_cases changed : ids.nodes.inDocument element = true ∧ ids.id element ≠ value
  · obtain ⟨inside, different⟩ := changed
    have some : ¬(ids.id element = none ∧ value = none) := by
      rintro ⟨old, new⟩
      exact different (old.trans new.symm)
    rw [if_neg some]
    have member : element ∈ ids.elements := valid.mem_elements_iff.mpr ⟨inside, isElement⟩
    have keeps := valid.keeps.updateId inside member different
    have cached : ∀ key ≠ [], ∀ a, (ids.updateId element (ids.id element) value).elementsById key =
        Option.some a →
          (named (Function.update ids.id element value) ids.elements key).head? = Option.some a := by
      intro key filled a found
      have listed := keeps.cached key filled a found
      obtain ⟨alone, -⟩ | ⟨other, before, apart⟩ :=
        elementsById_updateId filled inside different found
      · rw [keeps.count key filled, List.length_eq_one_iff] at alone
        obtain ⟨only, whole⟩ := alone
        rw [whole] at listed ⊢
        rw [List.mem_singleton.mp listed]
        rfl
      · rw [named_update_of_ne other] at listed ⊢
        exact head?_filter_of_mem (valid.first key filled a before) listed
    obtain ⟨elementsById, duplicateIds, frame⟩ := ids.updateId_frame element (ids.id element) value
    rw [frame] at keeps cached ⊢
    have hasID := @hasID_setAttributeValue _ _ { ids with elementsById, duplicateIds } element value
      valid.hasID
    obtain ⟨flags, after⟩ :=
      ElementIds.setAttributeValue_frame { ids with elementsById, duplicateIds } element value
    rw [after] at hasID ⊢
    exact ⟨valid.forest, valid.isDocument, valid.top, valid.inDocument, hasID, keeps.count, cached⟩
  · have same : ids.updateId element (ids.id element) value = ids := by
      unfold updateId
      by_cases inside : ids.nodes.inDocument element = true
      · have equal : ids.id element = value := not_not.mp fun different => changed ⟨inside, different⟩
        rw [inside, if_neg (by decide), if_pos equal]
      · rw [Bool.not_eq_true] at inside
        rw [inside, if_pos (by decide)]
    rw [same]
    split
    · exact valid
    · refine valid.setAttributeValue fun member => ?_
      have inside := (valid.mem_elements_iff.mp member).1
      exact not_not.mp fun different => changed ⟨inside, different⟩

/-- An attribute that gets a value by itself does not change what is kept for its element. -/
def AttrSettled (ids : ElementIds N) (element : N) (value : Text) : Prop :=
  ids.nodes.inDocument element = true → ids.isElementNode element = true →
    ids.id element ≠ none → ids.id element = some value

theorem Valid.setAttrValue (valid : ids.Valid) {value : Text}
    (settled : ids.AttrSettled element value) : (ids.setAttrValue element value).Valid := by
  rw [ElementIds.setAttrValue]
  split
  · next has =>
    refine valid.setAttributeValue fun member => ?_
    exact settled (valid.mem_elements_iff.mp member).1 has.1 has.2
  · exact valid

theorem Valid.counted_setAttrValue_iff (valid : ids.Valid) {value : Text} :
    (ids.setAttrValue element value).Counted ↔ ids.AttrSettled element value := by
  constructor
  · intro counted inside isElement has
    obtain ⟨flags, frame⟩ := ids.setAttributeValue_frame element (some value)
    rw [ElementIds.setAttrValue, if_pos ⟨isElement, has⟩, frame] at counted
    have member : element ∈ ids.elements := valid.mem_elements_iff.mpr ⟨inside, isElement⟩
    have same : ∀ key ≠ [], (named ids.id ids.elements key).length =
        (named (Function.update ids.id element (some value)) ids.elements key).length :=
      fun key filled => (valid.counted key filled).symm.trans (counted key filled)
    by_contra different
    obtain ⟨old, is⟩ := Option.ne_none_iff_exists'.mp has
    rw [is] at different
    have shrinks : ∀ (id : N → AtomicString) (key : Text), id element = some key →
        ((named id ids.elements key).filter (· ≠ element)).length <
          (named id ids.elements key).length := by
      intro id key has
      refine List.length_filter_lt_length_iff_exists.mpr ⟨element, ?_, by simp⟩
      exact List.mem_filter.mpr ⟨member, decide_eq_true has⟩
    by_cases empty : old = []
    · -- The new id is not empty.
      subst empty
      have filled : value ≠ [] := by
        rintro rfl
        exact different rfl
      have back : Function.update (Function.update ids.id element (some value)) element
          (ids.id element) = ids.id := by simp
      have before := @named_update_of_ne _ _ element value
        (Function.update ids.id element (some value)) (ids.id element) ids.elements
        (by rw [is]; exact different)
      rw [back] at before
      have count := same value filled
      have fewer := shrinks _ value (Function.update_self element (some value) ids.id)
      rw [← before] at fewer
      omega
    · have count := same old empty
      rw [named_update_of_ne (Ne.symm different)] at count
      have fewer := shrinks ids.id old is
      omega
  · exact fun settled => (valid.setAttrValue settled).counted

end ElementIds

end

end WkcBrowser.Dom
