import WkcBrowser.Dom.EventTarget

/-! Where a dispatch stands in its listener vector. Its index passes through -1 when the first listener is
removed while it handles the event; a further removal then takes the index out of reach of the end. -/

namespace WkcBrowser.Dom

open Lib

theorem increment_decrement {i : Nat} (small : i < 2 ^ 32) : increment (decrement i) = i := by
  unfold increment decrement
  omega

theorem increment_lt (i : Nat) : increment i < 2 ^ 32 := Nat.mod_lt _ (by decide)

theorem decrement_lt (i : Nat) : decrement i < 2 ^ 32 := Nat.mod_lt _ (by decide)

section
variable {α : Type} [DecidableEq α] {before after : List α} {r : α}

theorem idxOf_split (absent : r ∉ before) : (before ++ r :: after).idxOf r = before.length := by
  rw [List.idxOf_append_of_notMem absent, List.idxOf_cons_self, Nat.add_zero]

theorem eraseIdx_split (absent : r ∉ before) :
    (before ++ r :: after).eraseIdx ((before ++ r :: after).idxOf r) = before ++ after := by
  rw [idxOf_split absent, List.eraseIdx_append_of_length_le (le_refl _), Nat.sub_self]
  rfl

theorem erase_split (absent : r ∉ before) : (before ++ r :: after).erase r = before ++ after := by
  rw [List.erase_append_right _ absent, List.erase_cons_head]

end

variable {V E L : Type} [DecidableEq E]

namespace EventTarget

/-- Every vector of the map exists, is not empty and holds no listener twice, and is of one type. -/
structure Vectors (t : EventTarget V E L) : Prop where
  created : ∀ eventType address, t.eventListenerMap.lookup eventType = some address →
    address < t.created
  present : ∀ eventType address, t.eventListenerMap.lookup eventType = some address →
    ∃ listeners, t.vectors address = some listeners ∧ listeners.Nodup ∧
      listeners.length ≤ vectorLimit
  apart : ∀ eventType eventType' address, t.eventListenerMap.lookup eventType = some address →
    t.eventListenerMap.lookup eventType' = some address → eventType = eventType'

theorem entry_eq_some {t : EventTarget V E L} {eventType : E} {address : Nat}
    {listeners : List (RegisteredEventListener L)} :
    t.entry eventType = some (address, listeners) ↔
      t.eventListenerMap.lookup eventType = some address ∧ t.vectors address = some listeners := by
  unfold entry
  cases t.eventListenerMap.lookup eventType with
  | none => simp
  | some address' =>
    dsimp only
    constructor
    · intro found
      obtain ⟨listeners', inside, same⟩ := Option.map_eq_some_iff.mp found
      cases same
      exact ⟨rfl, inside⟩
    · rintro ⟨same, inside⟩
      cases same
      rw [inside]
      rfl

end EventTarget

/-- How many listeners the dispatch has passed, when the index is not beyond the end. -/
def Firing.cursor (f : Firing V E L) : FiringItem → Nat
  | .loop => f.iterator
  | .handleEvent => increment f.iterator

/-- The dispatch has nothing to wait for, or its listeners stand in its vector: those it has passed, those
that wait, and those that were added later. The index tells the first ones apart from the others, or it
went past -1. -/
structure Placed (t : EventTarget V E L) (item : FiringItem) (f : Firing V E L) : Prop where
  small : f.iterator < 2 ^ 32
  stands : f.end_ = 0 ∧ f.waiting = [] ∨ ∃ passed later,
    t.entry f.eventType = some (f.entry, passed ++ f.waiting ++ later) ∧
    f.end_ = passed.length + f.waiting.length ∧
    (f.cursor item = passed.length ∨
      passed = [] ∧ 2 ^ 32 - vectorLimit + f.end_ ≤ f.cursor item)

variable {t : EventTarget V E L} {f : Firing V E L} {item : FiringItem} {eventType : E}
  {registered : RegisteredEventListener L}

/-- What happens to the vectors of other types does not matter. -/
theorem Placed.congr {t' : EventTarget V E L} (placed : Placed t item f)
    (same : t'.entry f.eventType = t.entry f.eventType) : Placed t' item f :=
  ⟨placed.small, placed.stands.imp_right fun ⟨passed, later, found, rest⟩ =>
    ⟨passed, later, same.trans found, rest⟩⟩

/-- A listener that is added comes after the end of every dispatch. -/
theorem Placed.append {t' : EventTarget V E L} (placed : Placed t item f)
    (more : ∀ address listeners, t.entry f.eventType = some (address, listeners) →
      ∃ new, t'.entry f.eventType = some (address, listeners ++ new)) : Placed t' item f := by
  refine ⟨placed.small, placed.stands.imp_right ?_⟩
  rintro ⟨passed, later, found, rest⟩
  obtain ⟨new, found'⟩ := more _ _ found
  refine ⟨passed, later ++ new, ?_, rest⟩
  rw [found', List.append_assoc]

theorem Placed.clear (f : Firing V E L) : Placed t item f.clear :=
  ⟨Nat.two_pow_pos 32, .inl ⟨rfl, rfl⟩⟩

/-- A vector that becomes empty is of no concern. -/
theorem Placed.of_split (small : f.iterator < 2 ^ 32) (passed later : List (RegisteredEventListener L))
    (found : passed ++ f.waiting ++ later ≠ [] →
      t.entry f.eventType = some (f.entry, passed ++ f.waiting ++ later))
    (length : f.end_ = passed.length + f.waiting.length)
    (position : f.cursor item = passed.length ∨
      passed = [] ∧ 2 ^ 32 - vectorLimit + f.end_ ≤ f.cursor item) : Placed t item f := by
  by_cases empty : passed ++ f.waiting ++ later = []
  · obtain ⟨first, -⟩ := List.append_eq_nil_iff.mp empty
    obtain ⟨none_passed, nobody⟩ := List.append_eq_nil_iff.mp first
    rw [none_passed, nobody] at length
    exact ⟨small, .inl ⟨length, nobody⟩⟩
  · exact ⟨small, .inr ⟨passed, later, found empty, length, position⟩⟩

theorem notify_beyond {index : Nat} (beyond : f.end_ ≤ index) : f.notify f.eventType index = f := by
  unfold Firing.notify
  rw [if_neg (not_not.mpr rfl), if_pos beyond]

theorem notify_within {index : Nat} (within : index < f.end_) :
    f.notify f.eventType index =
      { f with
        end_ := f.end_ - 1
        iterator := if index ≤ f.iterator then decrement f.iterator else f.iterator } := by
  unfold Firing.notify
  rw [if_neg (not_not.mpr rfl), if_neg (Nat.not_le.mpr within)]

variable [DecidableEq L]

theorem notify_other (different : eventType ≠ f.eventType) (index : Nat) :
    (f.forget eventType registered).notify eventType index = f := by
  have kept : f.forget eventType registered = f := if_neg fun both => different both.1
  rw [kept]
  exact if_pos different

/-- A listener that is not waited for is removed. -/
theorem forget_absent (absent : registered ∉ f.waiting) : f.forget eventType registered = f :=
  if_neg fun both => absent both.2

/-- The removal of a listener from the vector of a dispatch that handles the event. -/
theorem Placed.remove {t' : EventTarget V E L} {address : Nat}
    {listeners : List (RegisteredEventListener L)} (placed : Placed t .handleEvent f)
    (found : t.entry f.eventType = some (address, listeners)) (nodup : listeners.Nodup)
    (limit : listeners.length ≤ vectorLimit) (member : registered ∈ listeners)
    (removed : listeners.erase registered ≠ [] →
      t'.entry f.eventType = some (address, listeners.erase registered)) :
    Placed t' .handleEvent
      ((f.forget f.eventType registered).notify f.eventType (listeners.idxOf registered)) := by
  obtain ⟨small, ⟨none_left, nobody⟩ | ⟨passed, later, found', length, position⟩⟩ := placed
  · rw [forget_absent (by rw [nobody]; exact List.not_mem_nil), notify_beyond (by omega)]
    exact ⟨small, .inl ⟨none_left, nobody⟩⟩
  · obtain ⟨rfl, rfl⟩ := Prod.mk.inj (Option.some.inj (found'.symm.trans found))
    have short : (passed ++ f.waiting ++ later).length ≤ vectorLimit := limit
    rw [List.length_append, List.length_append] at short
    have limit_lt : vectorLimit < 2 ^ 31 := by decide
    have cursor : f.cursor .handleEvent = increment f.iterator := rfl
    have next : increment f.iterator = f.iterator + 1 ∨
        increment f.iterator = 0 ∧ f.iterator = 2 ^ 32 - 1 := by
      unfold increment
      omega
    by_cases first : registered ∈ passed
    · -- It was passed: the index goes back with it.
      have waits : registered ∉ f.waiting := fun inside =>
        (List.nodup_append.mp (List.nodup_append.mp nodup).1).2.2 _ first _ inside rfl
      obtain ⟨before, after, rfl, absent⟩ := List.eq_append_cons_of_mem first
      have whole : before ++ registered :: after ++ f.waiting ++ later =
          before ++ registered :: (after ++ f.waiting ++ later) := by simp
      rw [whole] at removed ⊢
      rw [erase_split absent] at removed
      have count : (before ++ registered :: after).length = before.length + after.length + 1 := by
        rw [List.length_append, List.length_cons, Nat.add_assoc]
      have stands : f.iterator = before.length + after.length := by
        obtain here | ⟨nil, -⟩ := position
        · omega
        · exact absurd nil (by simp)
      rw [forget_absent waits, idxOf_split absent, notify_within (by omega), if_pos (by omega)]
      refine .of_split (decrement_lt _) (before ++ after) later (fun some_left => ?_) ?_ (.inl ?_)
      · rw [← List.append_assoc, ← List.append_assoc] at removed
        exact removed some_left
      · rw [List.length_append]
        change f.end_ - 1 = _ + f.waiting.length
        omega
      · change increment (decrement f.iterator) = _
        rw [increment_decrement small, stands, List.length_append]
    · by_cases second : registered ∈ f.waiting
      · -- It waits: only an index that is -1 goes back, and so past -1.
        have forgotten : f.forget f.eventType registered =
            { f with waiting := f.waiting.erase registered, removed := registered :: f.removed } :=
          if_pos ⟨rfl, second⟩
        obtain ⟨before, after, split, absent⟩ := List.eq_append_cons_of_mem second
        have absent' : registered ∉ passed ++ before := by
          rw [List.mem_append, not_or]
          exact ⟨first, absent⟩
        have whole : passed ++ f.waiting ++ later =
            (passed ++ before) ++ registered :: (after ++ later) := by simp [split]
        have rest : f.waiting.erase registered = before ++ after := by rw [split, erase_split absent]
        have count : f.waiting.length = before.length + after.length + 1 := by
          rw [split, List.length_append, List.length_cons, Nat.add_assoc]
        rw [whole] at removed ⊢
        rw [erase_split absent'] at removed
        rw [forgotten, idxOf_split absent', List.length_append]
        have within : passed.length + before.length < f.end_ := by omega
        have notified := notify_within (f := { f with
          waiting := f.waiting.erase registered, removed := registered :: f.removed }) within
        dsimp only at notified
        rw [notified]
        have parts : passed ++ (before ++ after) ++ later = passed ++ before ++ (after ++ later) := by
          simp
        have back : increment (if passed.length + before.length ≤ f.iterator then
            decrement f.iterator else f.iterator) =
              if passed.length + before.length ≤ f.iterator then f.iterator
              else increment f.iterator := by
          split_ifs
          · exact increment_decrement small
          · rfl
        refine .of_split ?_ passed later (fun some_left => ?_) ?_ ?_
        · dsimp only
          split_ifs
          · exact decrement_lt _
          · exact small
        · dsimp only at some_left ⊢
          rw [rest, parts] at some_left ⊢
          exact removed some_left
        · dsimp only
          rw [rest, List.length_append]
          omega
        · change increment _ = _ ∨ _ ∧ _ ≤ increment _
          dsimp only
          rw [back]
          by_cases none_passed : passed = []
          · rw [none_passed] at position within ⊢
            simp only [List.length_nil, Nat.zero_add] at position within ⊢
            refine .inr ⟨trivial, ?_⟩
            rw [if_pos (by omega)]
            omega
          · have some_passed := List.length_pos_of_ne_nil none_passed
            obtain here | ⟨nil, -⟩ := position
            · rw [if_neg (by omega)]
              exact .inl here
            · exact absurd nil none_passed
      · -- It was added later.
        have third : registered ∈ later := by
          rw [List.mem_append, List.mem_append] at member
          exact member.resolve_left (not_or.mpr ⟨first, second⟩)
        obtain ⟨before, after, rfl, absent⟩ := List.eq_append_cons_of_mem third
        have absent' : registered ∉ passed ++ f.waiting ++ before := by
          rw [List.mem_append, List.mem_append, not_or, not_or]
          exact ⟨⟨first, second⟩, absent⟩
        have whole : passed ++ f.waiting ++ (before ++ registered :: after) =
            (passed ++ f.waiting ++ before) ++ registered :: after := by simp
        rw [whole] at removed ⊢
        rw [erase_split absent'] at removed
        rw [forget_absent second, idxOf_split absent', notify_beyond (by
          rw [List.length_append, List.length_append]
          omega)]
        refine .of_split small passed (before ++ after) (fun some_left => ?_) length position
        rw [← List.append_assoc] at some_left ⊢
        exact removed some_left

end WkcBrowser.Dom
