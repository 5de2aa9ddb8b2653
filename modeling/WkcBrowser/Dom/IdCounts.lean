import Mathlib.Data.List.Perm.Lattice
import WkcBrowser.Dom.ElementIds

/-! How many elements a document keeps for every id. -/

namespace WkcBrowser.Dom

open Lib Wtf

namespace ElementIds

section
variable {N : Type}

/-- The elements of a list with an id. -/
def named (id : N → AtomicString) (elements : List N) (key : Text) : List N :=
  elements.filter fun n => id n = some key

/-- How many elements are kept for an id. -/
def kept (ids : ElementIds N) (key : Text) : Nat :=
  (ids.elementsById key).toList.length + ids.duplicateIds key

/-- Just the elements of the list are kept. -/
structure Keeps (ids : ElementIds N) (id : N → AtomicString) (elements : List N) : Prop where
  nodup : elements.Nodup
  count : ∀ key ≠ [], ids.kept key = (named id elements key).length
  cached : ∀ key ≠ [], ∀ e, ids.elementsById key = some e → e ∈ named id elements key

variable {ids : ElementIds N} {id : N → AtomicString} {elements : List N} {key : Text} {e : N}

theorem head?_filter_of_mem {items : List N} {included : N → Bool} (first : items.head? = some e)
    (member : e ∈ items.filter included) : (items.filter included).head? = some e := by
  obtain ⟨rest, rfl⟩ := List.head?_eq_some_iff.mp first
  rw [List.filter_cons, if_pos (List.mem_filter.mp member).2]
  rfl

theorem named_cons (is : id e = some key) :
    named id (e :: elements) key = e :: named id elements key :=
  List.filter_cons_of_pos (decide_eq_true is)

theorem named_cons_of_ne (other : id e ≠ some key) :
    named id (e :: elements) key = named id elements key :=
  List.filter_cons_of_neg (by simpa using other)

theorem Keeps.perm (keeps : ids.Keeps id elements) {elements' : List N}
    (perm : elements'.Perm elements) : ids.Keeps id elements' where
  nodup := perm.nodup_iff.mpr keeps.nodup
  count := fun key filled => (keeps.count key filled).trans (perm.filter _).length_eq.symm
  cached := fun key filled e found => (perm.filter _).mem_iff.mpr (keeps.cached key filled e found)

/-- Elements without an id do not count. -/
theorem Keeps.cons (keeps : ids.Keeps id elements) (outside : e ∉ elements)
    (unnamed : (id e).isEmpty = true) : ids.Keeps id (e :: elements) := by
  have other : ∀ key ≠ [], id e ≠ some key := by
    intro key filled same
    rw [same] at unnamed
    exact filled (List.isEmpty_iff.mp unnamed)
  have same : ∀ key ≠ [], named id (e :: elements) key = named id elements key :=
    fun key filled => named_cons_of_ne (other key filled)
  refine ⟨List.nodup_cons.mpr ⟨outside, keeps.nodup⟩, fun key filled => ?_, fun key filled => ?_⟩
  · rw [same key filled]
    exact keeps.count key filled
  · rw [same key filled]
    exact keeps.cached key filled

theorem Keeps.tail (keeps : ids.Keeps id (e :: elements)) (unnamed : (id e).isEmpty = true) :
    ids.Keeps id elements := by
  have other : ∀ key ≠ [], id e ≠ some key := by
    intro key filled same
    rw [same] at unnamed
    exact filled (List.isEmpty_iff.mp unnamed)
  have same : ∀ key ≠ [], named id (e :: elements) key = named id elements key :=
    fun key filled => named_cons_of_ne (other key filled)
  refine ⟨(List.nodup_cons.mp keeps.nodup).2, fun key filled => ?_, fun key filled => ?_⟩
  · rw [← same key filled]
    exact keeps.count key filled
  · rw [← same key filled]
    exact keeps.cached key filled

/-- What `addElementById` does with the element and the count of an id. -/
theorem addElementById_eq (ids : ElementIds N) (key : Text) (e : N) : ids.addElementById key e =
    { ids with
      elementsById := Function.update ids.elementsById key
        (if ids.kept key = 0 then some e else none)
      duplicateIds := Function.update ids.duplicateIds key
        (if ids.kept key = 0 then 0 else ids.kept key + 1) } := by
  rw [addElementById, kept]
  cases cached : ids.elementsById key with
  | none =>
    by_cases zero : ids.duplicateIds key = 0
    · have same : Function.update ids.duplicateIds key 0 = ids.duplicateIds :=
        Function.update_eq_self_iff.mpr zero.symm
      simp [zero, setElement, same]
    · have same : Function.update ids.elementsById key none = ids.elementsById :=
        Function.update_eq_self_iff.mpr cached.symm
      simp [zero, addDuplicate, same]
  | some other =>
    by_cases zero : ids.duplicateIds key = 0
    · simp [zero, setElement, addDuplicate]
    · simp [zero, setElement, addDuplicate]
      rw [Nat.add_comm 1]

theorem kept_addElementById : (ids.addElementById key e).kept key = ids.kept key + 1 := by
  rw [addElementById_eq, kept]
  dsimp only
  rw [Function.update_self, Function.update_self]
  by_cases zero : ids.kept key = 0
  · rw [if_pos zero, if_pos zero, zero]
    rfl
  · rw [if_neg zero, if_neg zero]
    exact Nat.zero_add _

theorem kept_addElementById_of_ne {other : Text} (different : other ≠ key) :
    (ids.addElementById key e).kept other = ids.kept other := by
  rw [addElementById_eq]
  unfold kept
  simp only [Function.update_of_ne different]

theorem Keeps.add (keeps : ids.Keeps id elements) (outside : e ∉ elements) (is : id e = some key) :
    (ids.addElementById key e).Keeps id (e :: elements) := by
  refine ⟨List.nodup_cons.mpr ⟨outside, keeps.nodup⟩, fun other filled => ?_, fun other filled a => ?_⟩
  · by_cases same : other = key
    · subst same
      rw [kept_addElementById, keeps.count other filled, named_cons is, List.length_cons]
    · have apart : id e ≠ some other := by
        rw [is]
        exact fun equal => same (Option.some.inj equal).symm
      rw [kept_addElementById_of_ne same, keeps.count other filled, named_cons_of_ne apart]
  · rw [addElementById_eq]
    intro found
    dsimp only at found
    by_cases same : other = key
    · subst same
      rw [Function.update_self] at found
      split at found
      · cases found
        exact List.mem_filter.mpr ⟨List.mem_cons_self, decide_eq_true is⟩
      · cases found
    · rw [Function.update_of_ne same] at found
      obtain ⟨member, has⟩ := List.mem_filter.mp (keeps.cached other filled a found)
      exact List.mem_filter.mpr ⟨List.mem_cons_of_mem _ member, has⟩

theorem isEmpty_eq_false_iff {string : AtomicString} :
    string.isEmpty = false ↔ ∃ key ≠ [], string = some key := by
  cases string with
  | none => simp [AtomicString.isEmpty]
  | some text => simp [AtomicString.isEmpty]

theorem Keeps.foldl_add (keeps : ids.Keeps id elements) {ns : List N}
    (named : ∀ n ∈ ns, (id n).isEmpty = false) (nodup : (ns ++ elements).Nodup) :
    (ns.foldl (fun now n => now.addElementById ((id n).getD []) n) ids).Keeps id (ns ++ elements) := by
  induction ns generalizing ids elements with
  | nil => exact keeps
  | cons n ns ih =>
    obtain ⟨key, -, is⟩ := isEmpty_eq_false_iff.mp (named n List.mem_cons_self)
    have order := @List.perm_middle N n ns elements
    rw [List.cons_append, ← order.nodup_iff] at nodup
    have outside : n ∉ elements := (List.nodup_cons.mp (List.nodup_append.mp nodup).2.1).1
    rw [List.foldl_cons, is, Option.getD_some]
    exact (ih (keeps.add outside is) (fun m member => named m (List.mem_cons_of_mem _ member))
      nodup).perm order.symm

/-- What is cached after elements are added was so before, or is alone with its id. -/
theorem cached_foldl_add {ns : List N} (named : ∀ n ∈ ns, (id n).isEmpty = false) {key : Text} {a : N}
    (found : (ns.foldl (fun now n => now.addElementById ((id n).getD []) n) ids).elementsById key =
      some a) :
    (ns.foldl (fun now n => now.addElementById ((id n).getD []) n) ids).kept key = 1 ∨
      ids.elementsById key = some a ∧ ∀ n ∈ ns, id n ≠ some key := by
  induction ns using List.reverseRecOn with
  | nil => exact .inr ⟨found, by simp⟩
  | append_singleton ns n ih =>
    obtain ⟨own, -, is⟩ := isEmpty_eq_false_iff.mp (named n (by simp))
    rw [List.foldl_append, List.foldl_cons, List.foldl_nil, is, Option.getD_some] at found ⊢
    generalize ns.foldl (fun now n => now.addElementById ((id n).getD []) n) ids = now at found ih ⊢
    by_cases same : key = own
    · subst same
      rw [addElementById_eq] at found
      dsimp only at found
      rw [Function.update_self] at found
      by_cases zero : now.kept key = 0
      · rw [kept_addElementById, zero]
        exact .inl rfl
      · rw [if_neg zero] at found
        cases found
    · have before : now.elementsById key = some a := by
        rw [addElementById_eq] at found
        dsimp only at found
        rwa [Function.update_of_ne same] at found
      rw [kept_addElementById_of_ne same]
      rcases ih (fun m member => named m (List.mem_append_left _ member)) before with alone | ⟨first, none⟩
      · exact .inl alone
      · refine .inr ⟨first, fun m member => ?_⟩
        rcases List.mem_append.mp member with front | last
        · exact none m front
        · rw [List.mem_singleton.mp last, is]
          exact fun equal => same (Option.some.inj equal).symm

variable [DecidableEq N]

theorem kept_removeElementById_of_ne {other : Text} (different : other ≠ key) :
    (ids.removeElementById key e).kept other = ids.kept other := by
  rw [removeElementById, kept, kept]
  split
  · rw [setElement]
    dsimp only
    rw [Function.update_of_ne different]
  · rw [removeDuplicate]
    dsimp only
    rw [Function.update_of_ne different]

theorem elementsById_removeElementById {other : Text} {a : N}
    (found : (ids.removeElementById key e).elementsById other = some a) :
    ids.elementsById other = some a ∧ (other = key → a ≠ e) := by
  rw [removeElementById] at found
  by_cases cached : ids.elementsById key = some e
  · rw [if_pos cached, setElement] at found
    dsimp only at found
    by_cases same : other = key
    · rw [same, Function.update_self] at found
      cases found
    · rw [Function.update_of_ne same] at found
      exact ⟨found, fun equal => absurd equal same⟩
  · rw [if_neg cached, removeDuplicate] at found
    dsimp only at found
    refine ⟨found, ?_⟩
    rintro rfl rfl
    exact cached found

theorem Keeps.remove (keeps : ids.Keeps id (e :: elements)) (filled : key ≠ [])
    (is : id e = some key) : (ids.removeElementById key e).Keeps id elements := by
  have nodup := List.nodup_cons.mp keeps.nodup
  have whole := @named_cons N id elements key e is
  have apart : ∀ other ≠ key, named id (e :: elements) other = named id elements other := by
    intro other different
    refine named_cons_of_ne ?_
    rw [is]
    exact fun equal => different (Option.some.inj equal).symm
  refine ⟨nodup.2, fun other named => ?_, fun other named a found => ?_⟩
  · by_cases same : other = key
    · subst same
      have count := keeps.count other named
      rw [whole, List.length_cons, kept] at count
      rw [removeElementById]
      by_cases cached : ids.elementsById other = some e
      · rw [cached] at count
        rw [if_pos cached, kept, setElement]
        dsimp only
        rw [Function.update_self]
        simp at count ⊢
        omega
      · rw [if_neg cached, kept, removeDuplicate]
        dsimp only
        rw [Function.update_self]
        cases none : ids.elementsById other with
        | none =>
          rw [none] at count
          simp at count ⊢
          omega
        | some a =>
          rw [none] at count cached
          have member := keeps.cached other named a none
          rw [whole] at member
          have later := (List.mem_cons.mp member).resolve_left fun equal => cached (congrArg some equal)
          have positive := List.length_pos_of_mem later
          simp at count ⊢
          omega
    · rw [kept_removeElementById_of_ne same, keeps.count other named, apart other same]
  · obtain ⟨before, different⟩ := elementsById_removeElementById found
    have member := keeps.cached other named a before
    by_cases same : other = key
    · subst same
      rw [whole] at member
      exact (List.mem_cons.mp member).resolve_left (different rfl)
    · rwa [apart other same] at member

/-! Whole subtrees. -/

/-- The element is one that is kept when it comes into the document. -/
def registers (ids : ElementIds N) (n : N) : Bool :=
  ids.isElementNode n && ids.hasID n && !(ids.id n).isEmpty

theorem elementInserted_eq {n : N} (inside : ids.nodes.inDocument n = true) :
    ids.elementInserted n =
      if ids.registers n then ids.addElementById ((ids.id n).getD []) n else ids := by
  unfold elementInserted updateId registers
  cases is : ids.id n with
  | none => simp [AtomicString.isEmpty]
  | some text => by_cases empty : text = [] <;> simp [AtomicString.isEmpty, inside, empty]

theorem elementRemoved_eq {n : N} (inside : ids.nodes.inDocument n = true) :
    ids.elementRemoved n =
      if ids.registers n then ids.removeElementById ((ids.id n).getD []) n else ids := by
  unfold elementRemoved updateId registers
  cases is : ids.id n with
  | none => simp [AtomicString.isEmpty]
  | some text => by_cases empty : text = [] <;> simp [AtomicString.isEmpty, inside, empty]

theorem removeElementById_frame (ids : ElementIds N) (key : Text) (e : N) :
    ∃ elementsById duplicateIds,
      ids.removeElementById key e = { ids with elementsById, duplicateIds } := by
  rw [removeElementById]
  split
  · exact ⟨_, ids.duplicateIds, rfl⟩
  · exact ⟨ids.elementsById, _, rfl⟩

theorem foldl_elementInserted {ns : List N} (inside : ∀ n ∈ ns, ids.nodes.inDocument n = true) :
    ns.foldl elementInserted ids = (ns.filter ids.registers).foldl
      (fun now n => now.addElementById ((ids.id n).getD []) n) ids := by
  induction ns generalizing ids with
  | nil => rfl
  | cons n ns ih =>
    have later : ∀ m ∈ ns, ids.nodes.inDocument m = true :=
      fun m member => inside m (List.mem_cons_of_mem _ member)
    rw [List.foldl_cons, elementInserted_eq (inside n List.mem_cons_self)]
    by_cases registered : ids.registers n = true
    · rw [if_pos registered, List.filter_cons_of_pos registered, List.foldl_cons, addElementById_eq]
      exact ih later
    · rw [if_neg registered, List.filter_cons_of_neg registered, ih later]

theorem foldl_elementRemoved {ns : List N} (inside : ∀ n ∈ ns, ids.nodes.inDocument n = true) :
    ns.foldl elementRemoved ids = (ns.filter ids.registers).foldl
      (fun now n => now.removeElementById ((ids.id n).getD []) n) ids := by
  induction ns generalizing ids with
  | nil => rfl
  | cons n ns ih =>
    have later : ∀ m ∈ ns, ids.nodes.inDocument m = true :=
      fun m member => inside m (List.mem_cons_of_mem _ member)
    rw [List.foldl_cons, elementRemoved_eq (inside n List.mem_cons_self)]
    by_cases registered : ids.registers n = true
    · obtain ⟨elementsById, duplicateIds, frame⟩ := ids.removeElementById_frame ((ids.id n).getD []) n
      rw [if_pos registered, List.filter_cons_of_pos registered, List.foldl_cons, frame]
      exact ih later
    · rw [if_neg registered, List.filter_cons_of_neg registered, ih later]

theorem Keeps.foldl_remove {ns : List N} (keeps : ids.Keeps id (ns ++ elements))
    (named : ∀ n ∈ ns, (id n).isEmpty = false) :
    (ns.foldl (fun now n => now.removeElementById ((id n).getD []) n) ids).Keeps id elements := by
  induction ns generalizing ids with
  | nil => exact keeps
  | cons n ns ih =>
    obtain ⟨key, filled, is⟩ := isEmpty_eq_false_iff.mp (named n List.mem_cons_self)
    rw [List.foldl_cons, is, Option.getD_some]
    exact ih (keeps.remove filled is) fun m member => named m (List.mem_cons_of_mem _ member)

theorem cached_foldl_remove {ns : List N} {key : Text} {a : N}
    (found : (ns.foldl (fun now n => now.removeElementById ((id n).getD []) n) ids).elementsById key =
      some a) : ids.elementsById key = some a := by
  induction ns generalizing ids with
  | nil => exact found
  | cons n ns ih => exact (elementsById_removeElementById (ih found)).1

end

end ElementIds

end WkcBrowser.Dom
