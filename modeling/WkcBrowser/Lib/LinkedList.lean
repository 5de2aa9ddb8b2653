import Mathlib.Data.List.Basic
import Mathlib.Logic.Function.Basic

/-! Doubly linked lists whose links are in the elements. Several lists may share the links as long as no
element is in two of them. -/

namespace WkcBrowser.Lib

/-- The next and the previous element of each. -/
structure Links (α : Type) where
  next : α → Option α
  prev : α → Option α

structure Ends (α : Type) where
  head : Option α := none
  tail : Option α := none

namespace Links

variable {α : Type}

/-- The links run through the elements of the list in both directions. -/
structure Forms (links : Links α) (ends : Ends α) (elements : List α) : Prop where
  nodup : elements.Nodup
  head : ends.head = elements.head?
  tail : ends.tail = elements.getLast?
  links : ∀ before a after, elements = before ++ a :: after →
    links.next a = after.head? ∧ links.prev a = before.getLast?

variable {links links' : Links α} {ends : Ends α} {elements : List α} {a : α}

theorem Forms.nil : Forms links {} [] :=
  ⟨List.nodup_nil, rfl, rfl, fun before _ _ split => by
    cases before <;> cases split⟩

/-- Only the links of its own elements matter to a list. -/
theorem Forms.congr (forms : Forms links ends elements)
    (next : ∀ a ∈ elements, links'.next a = links.next a)
    (prev : ∀ a ∈ elements, links'.prev a = links.prev a) : Forms links' ends elements where
  nodup := forms.nodup
  head := forms.head
  tail := forms.tail
  links := by
    intro before a after split
    have member : a ∈ elements := by
      rw [split]
      exact List.mem_append_right _ List.mem_cons_self
    rw [next a member, prev a member]
    exact forms.links before a after split

/-- The links and the ends tell which the elements are. -/
theorem Forms.unique {elements' : List α} (forms : Forms links ends elements)
    (forms' : Forms links ends elements') : elements = elements' := by
  have rest (before after after' : List α) (first : after.head? = after'.head?)
      (split : elements = before ++ after) (split' : elements' = before ++ after') : after = after' := by
    induction after generalizing before after' with
    | nil =>
      cases after' with
      | nil => rfl
      | cons a after' => cases first
    | cons a after ih =>
      cases after' with
      | nil => cases first
      | cons b after' =>
        cases first
        have next := (forms.links before a after split).1.symm.trans (forms'.links before a after' split').1
        rw [ih (before ++ [a]) after' next (by simpa using split) (by simpa using split')]
  exact rest [] elements elements' (forms.head.symm.trans forms'.head) rfl rfl

variable [DecidableEq α]

/-- An element is taken out of the list with these ends. -/
def remove (links : Links α) (ends : Ends α) (a : α) : Links α × Ends α :=
  let next := links.next a
  let prev := links.prev a
  if next = none ∧ prev = none ∧ ends.head ≠ some a then
    (links, ends)
  else
    let cleared : Links α :=
      ⟨Function.update links.next a none, Function.update links.prev a none⟩
    let (forward, tail) := match next with
      | some n => ({ cleared with prev := Function.update cleared.prev n prev }, ends.tail)
      | none => (cleared, if ends.tail = some a then prev else ends.tail)
    let (both, head) := match prev with
      | some p => ({ forward with next := Function.update forward.next p next }, ends.head)
      | none => (forward, if ends.head = some a then next else ends.head)
    (both, ⟨head, tail⟩)

/-- An element whose links are null is put first. -/
def insert (links : Links α) (ends : Ends α) (a : α) : Links α × Ends α :=
  let linked := { links with next := Function.update links.next a ends.head }
  let back := match ends.head with
    | some first => { linked with prev := Function.update linked.prev first (some a) }
    | none => linked
  (back, ⟨some a, if back.next a = none then some a else ends.tail⟩)

variable {before after : List α}

/-- The neighbours of an element that is taken out are linked to each other. -/
theorem Forms.remove_eq (forms : Forms links ends (before ++ a :: after)) :
    links.remove ends a =
      (⟨fun b => if before.getLast? = some b then after.head? else
          if b = a then none else links.next b,
        fun b => if after.head? = some b then before.getLast? else
          if b = a then none else links.prev b⟩,
       ⟨(before ++ after).head?, (before ++ after).getLast?⟩) := by
  obtain ⟨next, prev⟩ := forms.links before a after rfl
  have head := forms.head
  have tail := forms.tail
  have inside : ¬(links.next a = none ∧ links.prev a = none ∧ ends.head ≠ some a) := by
    rintro ⟨-, first, other⟩
    rw [prev, List.getLast?_eq_none_iff] at first
    rw [head, first] at other
    exact other rfl
  rw [remove, if_neg inside, next, prev]
  obtain rfl | ⟨earlier, p, rfl⟩ := List.eq_nil_or_concat before
  · cases after with
    | nil => simp [head, tail, funext_iff, Function.update_apply, eq_comm]
    | cons n after => simp [head, tail, funext_iff, Function.update_apply, eq_comm]
  · cases after with
    | nil => simp [head, tail, funext_iff, Function.update_apply, eq_comm]
    | cons n after => simp [head, tail, funext_iff, Function.update_apply, eq_comm]

omit [DecidableEq α] in
/-- An element of two lists in a row is in the first or in the second. -/
theorem split_append {k l : List α} {b : α} (split : before ++ after = k ++ b :: l) :
    (∃ m, before = k ++ b :: m ∧ l = m ++ after) ∨ ∃ m, k = before ++ m ∧ after = m ++ b :: l := by
  obtain ⟨m, rfl, rest⟩ | ⟨m, rfl, rest⟩ := List.append_eq_append_iff.mp split
  · exact .inr ⟨m, rfl, rest⟩
  · cases m with
    | nil =>
      rw [List.nil_append] at rest
      exact .inr ⟨[], by simp, rest.symm⟩
    | cons c m =>
      cases rest
      exact .inl ⟨m, rfl, rfl⟩

omit [DecidableEq α] in
theorem nodup_split {l : List α} {b : α} (nodup : (before ++ b :: l).Nodup) :
    b ∉ before ∧ b ∉ l ∧ (before ++ l).Nodup := by
  have once := List.nodup_cons.mp ((List.perm_middle).nodup nodup)
  rw [List.mem_append, not_or] at once
  exact ⟨once.1.1, once.1.2, once.2⟩

/-- What is left when an element is taken out is a list again. -/
theorem Forms.remove (forms : Forms links ends (before ++ a :: after)) :
    Forms (links.remove ends a).1 (links.remove ends a).2 (before ++ after) := by
  obtain ⟨absent, absent', nodup⟩ := nodup_split forms.nodup
  rw [forms.remove_eq]
  refine ⟨nodup, rfl, rfl, fun k b l split => ?_⟩
  rw [split] at nodup
  obtain ⟨not_before, not_after, -⟩ := nodup_split nodup
  dsimp only
  obtain ⟨m, rfl, rfl⟩ | ⟨m, rfl, rfl⟩ := split_append split
  · obtain ⟨next, prev⟩ := forms.links k b (m ++ a :: after) (by simp)
    have different : b ≠ a := by
      rintro rfl
      exact absent (by simp)
    have later : ¬after.head? = some b := fun first =>
      not_after (List.mem_append_right _ (List.mem_of_mem_head? first))
    rw [if_neg different, if_neg different, if_neg later, next, prev]
    refine ⟨?_, rfl⟩
    cases m with
    | nil => simp
    | cons c m =>
      have earlier : ¬(k ++ b :: c :: m).getLast? = some b := by
        rw [List.append_cons, List.getLast?_append_cons]
        intro last
        exact not_after (List.mem_append_left _ (List.mem_of_mem_getLast? last))
      rw [if_neg earlier]
      rfl
  · obtain ⟨next, prev⟩ := forms.links (before ++ a :: m) b l (by simp)
    have different : b ≠ a := by
      rintro rfl
      exact absent' (by simp)
    have earlier : ¬before.getLast? = some b := fun last =>
      not_before (List.mem_append_left _ (List.mem_of_mem_getLast? last))
    rw [if_neg different, if_neg different, if_neg earlier, next, prev]
    refine ⟨rfl, ?_⟩
    cases m with
    | nil => simp
    | cons c m =>
      have later : ¬(c :: m ++ b :: l).head? = some b := by
        rintro first
        cases first
        exact not_before (List.mem_append_right _ List.mem_cons_self)
      rw [if_neg later]
      simp

/-- An element that is taken out has no links. -/
theorem Forms.remove_self (forms : Forms links ends (before ++ a :: after)) :
    (links.remove ends a).1.next a = none ∧ (links.remove ends a).1.prev a = none := by
  obtain ⟨absent, absent', -⟩ := nodup_split forms.nodup
  have earlier : ¬before.getLast? = some a := fun last => absent (List.mem_of_mem_getLast? last)
  have later : ¬after.head? = some a := fun first => absent' (List.mem_of_mem_head? first)
  rw [forms.remove_eq]
  exact ⟨(if_neg earlier).trans (if_pos rfl), (if_neg later).trans (if_pos rfl)⟩

/-- The links of elements of other lists stay. -/
theorem Forms.remove_other (forms : Forms links ends (before ++ a :: after)) {b : α}
    (other : b ∉ before ++ a :: after) :
    (links.remove ends a).1.next b = links.next b ∧
      (links.remove ends a).1.prev b = links.prev b := by
  rw [List.mem_append, List.mem_cons, not_or, not_or] at other
  obtain ⟨not_before, different, not_after⟩ := other
  have earlier : ¬before.getLast? = some b := fun last => not_before (List.mem_of_mem_getLast? last)
  have later : ¬after.head? = some b := fun first => not_after (List.mem_of_mem_head? first)
  rw [forms.remove_eq]
  exact ⟨(if_neg earlier).trans (if_neg different), (if_neg later).trans (if_neg different)⟩

/-- An element that is put first has the old first element as its next one. -/
theorem Forms.insert_eq (forms : Forms links ends elements) (new : a ∉ elements) :
    links.insert ends a =
      (⟨Function.update links.next a elements.head?,
        fun b => if elements.head? = some b then some a else links.prev b⟩,
       ⟨some a, (a :: elements).getLast?⟩) := by
  have head := forms.head
  have tail := forms.tail
  cases elements with
  | nil => simp [insert, head]
  | cons first rest =>
    have different : first ≠ a := by
      rintro rfl
      exact new List.mem_cons_self
    simp [insert, head, tail, funext_iff, Function.update_apply, eq_comm]

theorem Forms.insert (forms : Forms links ends elements) (new : a ∉ elements)
    (unlinked : links.prev a = none) :
    Forms (links.insert ends a).1 (links.insert ends a).2 (a :: elements) := by
  rw [forms.insert_eq new]
  refine ⟨List.nodup_cons.mpr ⟨new, forms.nodup⟩, rfl, rfl, fun k b l split => ?_⟩
  cases k with
  | nil =>
    cases split
    have later : ¬elements.head? = some a := fun first => new (List.mem_of_mem_head? first)
    exact ⟨Function.update_self .., (if_neg later).trans unlinked⟩
  | cons c k =>
    obtain ⟨rfl, rest⟩ : a = c ∧ elements = k ++ b :: l := List.cons.inj split
    subst rest
    obtain ⟨next, prev⟩ := forms.links k b l rfl
    have different : b ≠ a := by
      rintro rfl
      exact new (by simp)
    dsimp only
    rw [Function.update_of_ne different, next, prev]
    refine ⟨rfl, ?_⟩
    cases k with
    | nil => simp
    | cons d k =>
      obtain ⟨not_before, -, -⟩ := nodup_split forms.nodup
      have later : ¬(d :: k ++ b :: l).head? = some b := by
        rintro first
        cases first
        exact not_before List.mem_cons_self
      rw [if_neg later]
      simp

theorem Forms.insert_other (forms : Forms links ends elements) (new : a ∉ elements) {b : α}
    (different : b ≠ a) (other : b ∉ elements) :
    (links.insert ends a).1.next b = links.next b ∧
      (links.insert ends a).1.prev b = links.prev b := by
  have later : ¬elements.head? = some b := fun first => other (List.mem_of_mem_head? first)
  rw [forms.insert_eq new]
  exact ⟨Function.update_of_ne different .., if_neg later⟩

/-- An element is put between two neighbours, or at an end where there is none. -/
def splice (links : Links α) (ends : Ends α) (a : α) (prev next : Option α) : Links α × Ends α :=
  (⟨fun b => if b = a then next else if prev = some b then some a else links.next b,
    fun b => if b = a then prev else if next = some b then some a else links.prev b⟩,
   ⟨if prev = none then some a else ends.head, if next = none then some a else ends.tail⟩)

/-- Put between its neighbours, an element becomes one of the list. -/
theorem Forms.splice (forms : Forms links ends (before ++ after)) (new : a ∉ before ++ after) :
    Forms (links.splice ends a before.getLast? after.head?).1
      (links.splice ends a before.getLast? after.head?).2 (before ++ a :: after) := by
  have nodup : (before ++ a :: after).Nodup :=
    (List.perm_middle.nodup_iff).mpr (List.nodup_cons.mpr ⟨new, forms.nodup⟩)
  refine ⟨nodup, ?_, ?_, fun k b l split => ?_⟩
  · cases before with
    | nil => rfl
    | cons c before => simpa [Links.splice] using forms.head
  · obtain rfl | ⟨later, c, rfl⟩ := List.eq_nil_or_concat after
    · simp [Links.splice]
    · simpa [Links.splice, List.getLast?_cons] using forms.tail
  · rw [split] at nodup
    obtain ⟨not_before, not_after, -⟩ := nodup_split nodup
    have places : (∃ m, before = k ++ b :: m ∧ l = m ++ a :: after) ∨
        (before = k ∧ a = b ∧ after = l) ∨ ∃ m, k = before ++ a :: m ∧ after = m ++ b :: l := by
      obtain ⟨m, rfl, rest⟩ | ⟨m, rfl, rest⟩ := split_append split
      · exact .inl ⟨m, rfl, rest⟩
      · cases m with
        | nil =>
          obtain ⟨rfl, rfl⟩ := List.cons.inj rest
          exact .inr (.inl ⟨by simp, rfl, rfl⟩)
        | cons c m =>
          obtain ⟨rfl, rfl⟩ := List.cons.inj rest
          exact .inr (.inr ⟨m, rfl, rfl⟩)
    unfold Links.splice
    dsimp only
    obtain ⟨m, rfl, rfl⟩ | ⟨rfl, rfl, rfl⟩ | ⟨m, rfl, rfl⟩ := places
    · have different : b ≠ a := by
        rintro rfl
        exact new (by simp)
      obtain ⟨next, prev⟩ := forms.links k b (m ++ after) (by simp)
      have later : ¬after.head? = some b := fun first =>
        not_after (by simp [List.mem_of_mem_head? first])
      rw [if_neg different, if_neg different, if_neg later, next, prev]
      refine ⟨?_, rfl⟩
      cases m with
      | nil => simp
      | cons c m =>
        have earlier : ¬(k ++ b :: c :: m).getLast? = some b := by
          rw [List.append_cons, List.getLast?_append_cons]
          intro last
          exact not_after (List.mem_append_left _ (List.mem_of_mem_getLast? last))
        rw [if_neg earlier]
        rfl
    · rw [if_pos rfl, if_pos rfl]
      exact ⟨rfl, rfl⟩
    · have different : b ≠ a := by
        rintro rfl
        exact new (by simp)
      obtain ⟨next, prev⟩ := forms.links (before ++ m) b l (by simp)
      have earlier : ¬before.getLast? = some b := fun last =>
        not_before (List.mem_append_left _ (List.mem_of_mem_getLast? last))
      rw [if_neg different, if_neg different, if_neg earlier, next, prev]
      refine ⟨rfl, ?_⟩
      cases m with
      | nil => simp
      | cons c m =>
        have later : ¬(c :: m ++ b :: l).head? = some b := by
          rintro first
          cases first
          exact not_before (by simp)
        rw [if_neg later]
        simp

theorem splice_other (ends : Ends α) {b : α} (different : b ≠ a) (not_before : b ∉ before)
    (not_after : b ∉ after) :
    (links.splice ends a before.getLast? after.head?).1.next b = links.next b ∧
      (links.splice ends a before.getLast? after.head?).1.prev b = links.prev b := by
  have earlier : ¬before.getLast? = some b := fun last => not_before (List.mem_of_mem_getLast? last)
  have later : ¬after.head? = some b := fun first => not_after (List.mem_of_mem_head? first)
  exact ⟨(if_neg different).trans (if_neg earlier), (if_neg different).trans (if_neg later)⟩

end Links

/-- One list of its own. -/
structure LinkedList (α : Type) where
  links : Links α := ⟨fun _ => none, fun _ => none⟩
  ends : Ends α := {}

/-- Lists that share the links. -/
structure Queues (α : Type) where
  links : Links α := ⟨fun _ => none, fun _ => none⟩
  ends : Nat → Ends α := fun _ => {}
  size : Nat := 0

namespace LinkedList

variable {α : Type}

/-- The list holds the members and nothing else. -/
structure Holds (list : LinkedList α) (member : α → Prop) : Prop where
  elements : ∃ elements : List α, list.links.Forms list.ends elements ∧
    ∀ a, a ∈ elements ↔ member a
  unlinked : ∀ a, ¬member a → list.links.next a = none ∧ list.links.prev a = none

variable {list : LinkedList α} {member member' : α → Prop} {a : α}

theorem Holds.empty : ({} : LinkedList α).Holds fun _ => False :=
  ⟨⟨[], .nil, fun _ => by simp⟩, fun _ _ => ⟨rfl, rfl⟩⟩

theorem Holds.congr (holds : list.Holds member) (same : ∀ a, member' a ↔ member a) :
    list.Holds member' := by
  have equal : member' = member := funext fun a => propext (same a)
  rw [equal]
  exact holds

variable [DecidableEq α]

def remove (list : LinkedList α) (a : α) : LinkedList α where
  links := (list.links.remove list.ends a).1
  ends := (list.links.remove list.ends a).2

def insert (list : LinkedList α) (a : α) : LinkedList α where
  links := (list.links.insert list.ends a).1
  ends := (list.links.insert list.ends a).2

theorem Holds.remove (holds : list.Holds member) (mem : member a) :
    (list.remove a).Holds fun b => member b ∧ b ≠ a := by
  obtain ⟨elements, forms, members⟩ := holds.elements
  obtain ⟨before, after, rfl⟩ := List.mem_iff_append.mp ((members a).mpr mem)
  obtain ⟨absent, absent', -⟩ := Links.nodup_split forms.nodup
  refine ⟨⟨before ++ after, forms.remove, fun b => ?_⟩, fun b other => ?_⟩
  · rw [← members b]
    simp only [List.mem_append, List.mem_cons]
    constructor
    · rintro (earlier | later)
      · exact ⟨.inl earlier, fun same => absent (same ▸ earlier)⟩
      · exact ⟨.inr (.inr later), fun same => absent' (same ▸ later)⟩
    · rintro ⟨earlier | same | later, different⟩
      · exact .inl earlier
      · exact absurd same different
      · exact .inr later
  · by_cases same : b = a
    · rw [same]
      exact forms.remove_self
    · have outside : ¬member b := fun inside => other ⟨inside, same⟩
      obtain ⟨next, prev⟩ := forms.remove_other (mt (members b).mp outside)
      obtain ⟨next', prev'⟩ := holds.unlinked b outside
      exact ⟨next.trans next', prev.trans prev'⟩

theorem Holds.insert (holds : list.Holds member) (new : ¬member a) :
    (list.insert a).Holds fun b => b = a ∨ member b := by
  obtain ⟨elements, forms, members⟩ := holds.elements
  have absent := mt (members a).mp new
  refine ⟨⟨a :: elements, forms.insert absent (holds.unlinked a new).2, fun b => ?_⟩,
    fun b other => ?_⟩
  · rw [List.mem_cons, members b]
  · rw [not_or] at other
    obtain ⟨next, prev⟩ := forms.insert_other absent other.1 (mt (members b).mp other.2)
    obtain ⟨next', prev'⟩ := holds.unlinked b other.2
    exact ⟨next.trans next', prev.trans prev'⟩

end LinkedList

namespace Queues

variable {α : Type}

/-- The lists from an index on are dropped. -/
def resize (queues : Queues α) (size : Nat) : Queues α :=
  { queues with
    ends := fun i => if i < size then queues.ends i else {}
    size := size }

variable [DecidableEq α]

/-- The lists are as many as are needed. -/
def remove (queues : Queues α) (i : Nat) (a : α) : Queues α where
  links := (queues.links.remove (queues.ends i) a).1
  ends := Function.update queues.ends i (queues.links.remove (queues.ends i) a).2
  size := max queues.size (i + 1)

def insert (queues : Queues α) (i : Nat) (a : α) : Queues α where
  links := (queues.links.insert (queues.ends i) a).1
  ends := Function.update queues.ends i (queues.links.insert (queues.ends i) a).2
  size := max queues.size (i + 1)

end Queues

end WkcBrowser.Lib
