import WkcBrowser.Dom.IdCounts
import WkcBrowser.Lib.Along

/-! When the elements that a document keeps by their ids are those that a scan of it finds. -/

namespace WkcBrowser.Dom

open Lib Wtf

section
variable {N : Type} [Fintype N] [DecidableEq N]

namespace ElementIds

variable {ids : ElementIds N}

/-- The elements in the document. -/
def elements (ids : ElementIds N) : List N :=
  (ids.nodes.inOrder ids.document).filter ids.isElementNode

/-- For every id as many elements are kept as are in the document. -/
def Counted (ids : ElementIds N) : Prop :=
  ∀ key ≠ [], ids.kept key = (named ids.id ids.elements key).length

/-- Cached elements are the first with their ids. -/
def First (ids : ElementIds N) : Prop :=
  ∀ key ≠ [], ∀ e, ids.elementsById key = some e → (named ids.id ids.elements key).head? = some e

structure Valid (ids : ElementIds N) : Prop where
  forest : ids.nodes.Forest
  isDocument : ids.nodes.nodeType ids.document = .document
  top : ids.nodes.parentNode ids.document = none
  inDocument : ∀ n, ids.nodes.inDocument n = true ↔ n ∈ ids.nodes.inOrder ids.document
  hasID : ∀ n, ids.hasID n = (ids.styled n && decide (ids.id n ≠ none))
  counted : ids.Counted
  first : ids.First

theorem Valid.keeps (valid : ids.Valid) : ids.Keeps ids.id ids.elements where
  nodup := valid.forest.nodup_inOrder.filter _
  count := valid.counted
  cached := fun key filled e found => List.mem_of_head? (valid.first key filled e found)

omit [DecidableEq N] in
theorem Valid.registers_iff (valid : ids.Valid) {n : N} : ids.registers n = true ↔
    ids.isElementNode n = true ∧ (ids.id n).isEmpty = false ∧ ids.styled n = true := by
  rw [registers, valid.hasID]
  cases is : ids.id n with
  | none => simp [AtomicString.isEmpty]
  | some text => simp [and_comm, and_left_comm]

/-- The elements of some nodes with their ids are all of classes that keep the flag. -/
def AllStyled (ids : ElementIds N) (ns : List N) : Prop :=
  ∀ n ∈ ns, ids.isElementNode n = true → (ids.id n).isEmpty = false → ids.styled n = true

/-- The elements that do not register when they are in the list. -/
def unregistered (ids : ElementIds N) (ns : List N) : List N :=
  (ns.filter ids.isElementNode).filter (!ids.registers ·)

omit [DecidableEq N] in
theorem Valid.allStyled_iff (valid : ids.Valid) (ns : List N) :
    ids.AllStyled ns ↔ ∀ key ≠ [], named ids.id (ids.unregistered ns) key = [] := by
  constructor
  · intro styled key filled
    refine List.filter_eq_nil_iff.mpr fun n member is => ?_
    obtain ⟨inside, left⟩ := List.mem_filter.mp member
    obtain ⟨listed, element⟩ := List.mem_filter.mp inside
    have full : (ids.id n).isEmpty = false :=
      isEmpty_eq_false_iff.mpr ⟨key, filled, of_decide_eq_true is⟩
    have registered := valid.registers_iff.mpr ⟨element, full, styled n listed element full⟩
    rw [registered] at left
    cases left
  · intro nobody n member element full
    by_contra plain
    obtain ⟨key, filled, is⟩ := isEmpty_eq_false_iff.mp full
    have left : n ∈ ids.unregistered ns := by
      refine List.mem_filter.mpr ⟨List.mem_filter.mpr ⟨member, element⟩, ?_⟩
      rw [Bool.not_eq_true', ← Bool.not_eq_true, valid.registers_iff]
      exact fun all => plain all.2.2
    have found : n ∈ named ids.id (ids.unregistered ns) key :=
      List.mem_filter.mpr ⟨left, decide_eq_true is⟩
    rw [nobody key filled] at found
    cases found

omit [DecidableEq N] in
theorem Valid.registered_perm (valid : ids.Valid) (ns : List N) :
    (ns.filter ids.registers ++ ids.unregistered ns).Perm (ns.filter ids.isElementNode) := by
  have parts := List.filter_append_perm ids.registers (ns.filter ids.isElementNode)
  have same : (ns.filter ids.isElementNode).filter ids.registers = ns.filter ids.registers := by
    rw [List.filter_filter]
    refine List.filter_congr fun n _ => ?_
    by_cases registered : ids.registers n = true
    · simp [registered, (valid.registers_iff.mp registered).1]
    · simp [registered]
  rwa [same] at parts

/-! Lookups. -/

/-- What a scan of the document finds. -/
def firstWithId (ids : ElementIds N) (elementId : AtomicString) : Option N :=
  if elementId.isEmpty then none else (named ids.id ids.elements (elementId.getD [])).head?

/-- A call finds what a scan finds, and what is kept stays counted. -/
def Agrees (ids : ElementIds N) (event : Event N) : Prop :=
  (match event with
    | .getElementById elementId => (ids.getElementById elementId).1 = ids.firstWithId elementId
    | _ => True) ∧ (ids.step event).Counted

/-- The scan of `getElementById`. -/
theorem Valid.scan_eq (valid : ids.Valid) (wanted : N → Bool) :
    search (ids.nodes.traverseNextNode none) (fun n => ids.isElementNode n && wanted n)
        (Fintype.card N) (ids.nodes.traverseNextNode none ids.document) =
      (ids.elements.filter wanted).head? := by
  obtain ⟨contents, lists⟩ := valid.forest.linked.lists
  have follows := valid.forest.follows_traverseNextNode valid.top
  have bound : (ids.nodes.inOrder ids.document).length ≤ Fintype.card N :=
    valid.forest.nodup_inOrder.length_le_card
  obtain ⟨below, order, -⟩ := (lists.inOrder_spec valid.forest.acyclic ids.document).below_root
  have notElement : ¬ids.isElementNode ids.document = true := by
    rw [isElementNode, valid.isDocument]
    decide
  rw [elements, order, List.filter_cons_of_neg notElement, List.filter_filter]
  rw [order] at follows bound
  rw [follows.1, search_eq follows.2 (Nat.le_of_succ_le bound)]
  simp only [Bool.and_comm]

/-- A scan for an id skips the elements without the flag. -/
theorem Valid.getElementById_scan (valid : ids.Valid) {key : Text} (filled : key ≠ [])
    (absent : ids.elementsById key = none) (more : ids.duplicateIds key ≠ 0) :
    (ids.getElementById (some key)).1 =
      ((named ids.id ids.elements key).filter ids.styled).head? := by
  have full : AtomicString.isEmpty (some key) = false := by simpa [AtomicString.isEmpty] using filled
  have scan := valid.scan_eq fun n => ids.hasID n && decide (ids.id n = some key)
  have same : ids.elements.filter (fun n => ids.hasID n && decide (ids.id n = some key)) =
      (named ids.id ids.elements key).filter ids.styled := by
    unfold named
    rw [List.filter_filter]
    refine List.filter_congr fun n _ => ?_
    rw [valid.hasID]
    by_cases is : ids.id n = some key
    · simp [is]
    · simp [is]
  rw [same] at scan
  simp only [← Bool.and_assoc] at scan
  rw [getElementById, full, if_neg Bool.false_ne_true]
  simp only [Option.getD_some, absent]
  rw [if_neg more, scan]
  cases ((named ids.id ids.elements key).filter ids.styled).head? <;> rfl

/-- A lookup changes nothing, or it puts what it found in the place of a counted element. -/
theorem getElementById_cases (ids : ElementIds N) (elementId : AtomicString) :
    (ids.getElementById elementId).2 = ids ∨
      ∃ key e, key ≠ [] ∧ elementId = some key ∧ ids.elementsById key = none ∧
        ids.duplicateIds key ≠ 0 ∧ (ids.getElementById elementId).1 = some e ∧
        (ids.getElementById elementId).2 = (ids.removeDuplicate key).setElement key (some e) := by
  rw [getElementById]
  by_cases empty : elementId.isEmpty = true
  · rw [if_pos empty]
    exact .inl rfl
  · rw [if_neg empty]
    obtain ⟨key, filled, rfl⟩ := isEmpty_eq_false_iff.mp (Bool.eq_false_of_not_eq_true empty)
    dsimp only [Option.getD_some]
    cases absent : ids.elementsById key with
    | some e => exact .inl rfl
    | none =>
      by_cases zero : ids.duplicateIds key = 0
      · dsimp only
        rw [if_pos zero]
        exact .inl rfl
      · dsimp only
        rw [if_neg zero]
        generalize search _ _ _ _ = found
        cases found with
        | none => exact .inl rfl
        | some e => exact .inr ⟨key, e, filled, rfl, absent, zero, rfl, rfl⟩

/-- The first element with an id that is not cached is of a class that keeps the flag. -/
def ScanStyled (ids : ElementIds N) (elementId : AtomicString) : Prop :=
  ∀ key ≠ [], elementId = some key → ids.elementsById key = none →
    ∀ e, (named ids.id ids.elements key).head? = some e → ids.styled e = true

omit [DecidableEq N] in
theorem firstWithId_some {key : Text} (filled : key ≠ []) :
    ids.firstWithId (some key) = (named ids.id ids.elements key).head? := by
  rw [firstWithId, if_neg (by simpa [AtomicString.isEmpty] using filled), Option.getD_some]

theorem Valid.getElementById_eq_iff (valid : ids.Valid) (elementId : AtomicString) :
    (ids.getElementById elementId).1 = ids.firstWithId elementId ↔ ids.ScanStyled elementId := by
  by_cases empty : elementId.isEmpty = true
  · have skipped : ids.ScanStyled elementId := by
      rintro key filled rfl
      exact absurd (List.isEmpty_iff.mp empty) filled
    rw [getElementById, firstWithId, if_pos empty, if_pos empty]
    exact iff_of_true rfl skipped
  · obtain ⟨key, filled, rfl⟩ := isEmpty_eq_false_iff.mp (Bool.eq_false_of_not_eq_true empty)
    have counted := valid.counted key filled
    rw [firstWithId_some filled]
    cases cached : ids.elementsById key with
    | some e =>
      have result : (ids.getElementById (some key)).1 = some e := by
        rw [getElementById, if_neg empty]
        simp only [Option.getD_some, cached]
      rw [result, valid.first key filled e cached]
      refine iff_of_true rfl ?_
      intro other filled same absent
      rw [← Option.some.inj same, cached] at absent
      cases absent
    | none =>
      rw [kept, cached, Option.toList_none, List.length_nil, Nat.zero_add] at counted
      by_cases zero : ids.duplicateIds key = 0
      · have result : (ids.getElementById (some key)).1 = none := by
          rw [getElementById, if_neg empty]
          simp only [Option.getD_some, cached, if_pos zero]
        have nobody : named ids.id ids.elements key = [] :=
          List.length_eq_zero_iff.mp (counted.symm.trans zero)
        rw [result, nobody]
        refine iff_of_true rfl ?_
        intro other filled same absent e first
        rw [← Option.some.inj same, nobody] at first
        cases first
      · rw [valid.getElementById_scan filled cached zero]
        constructor
        · intro same other filled equal absent e first
          rw [← Option.some.inj equal] at first
          rw [first] at same
          exact (List.mem_filter.mp (List.mem_of_head? same)).2
        · intro styled
          cases elements : named ids.id ids.elements key with
          | nil => rfl
          | cons e rest =>
            have here := styled key filled rfl cached e (by rw [elements]; rfl)
            rw [List.filter_cons_of_pos here]
            rfl

theorem Valid.counted_getElementById (valid : ids.Valid) (elementId : AtomicString) :
    (ids.getElementById elementId).2.Counted := by
  obtain same | ⟨key, e, filled, -, absent, more, -, after⟩ := ids.getElementById_cases elementId
  · rw [same]
    exact valid.counted
  · rw [after]
    intro other named
    have counted := valid.counted other named
    refine Eq.trans ?_ counted
    by_cases here : other = key
    · subst here
      simp only [kept, setElement, removeDuplicate, Function.update_self, absent]
      simp
      omega
    · simp only [kept, setElement, removeDuplicate, Function.update_of_ne here]

theorem Valid.getElementById (valid : ids.Valid) {elementId : AtomicString}
    (styled : ids.ScanStyled elementId) : (ids.getElementById elementId).2.Valid := by
  obtain same | ⟨key, e, filled, rfl, absent, more, found, after⟩ :=
    ids.getElementById_cases elementId
  · rw [same]
    exact valid
  · have result := (valid.getElementById_eq_iff (some key)).mpr styled
    have counted := valid.counted_getElementById (some key)
    rw [after] at counted ⊢
    refine ⟨valid.forest, valid.isDocument, valid.top, valid.inDocument, valid.hasID, counted, ?_⟩
    intro other named a cached
    by_cases here : other = key
    · subst here
      have same : some e = some a := by
        simpa [setElement] using cached
      rw [found, firstWithId_some named, same] at result
      exact result.symm
    · refine valid.first other named a ?_
      simpa [setElement, removeDuplicate, Function.update_of_ne here] using cached

end ElementIds

end

end WkcBrowser.Dom
