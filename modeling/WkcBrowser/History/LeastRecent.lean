import Mathlib.Algebra.Ring.Int.Defs
import WkcBrowser.History.PageCache

/-! In every state that is reached, the list of the page cache has the items with a page, those that were
added last first. -/

namespace WkcBrowser.History.PageCache

open Lib

section
variable {I : Type} [DecidableEq I] {links : Links I} {ends : Ends I} {item : I}
  {items before after : List I}

theorem linkFirst_eq (forms : links.Forms ends items) (new : item ∉ items) :
    linkFirst links ends item = links.splice ends item none items.head? := by
  have head := forms.head
  have tail := forms.tail
  cases items with
  | nil => simp [linkFirst, Links.splice, head, funext_iff, Function.update_apply]
  | cons first rest =>
    have different : first ≠ item := by
      rintro rfl
      exact new List.mem_cons_self
    simp only [linkFirst, head, List.head?_cons, Links.splice, Prod.mk.injEq, Links.mk.injEq,
      funext_iff, Function.update_apply, reduceCtorEq, if_false, if_true, Option.some.injEq,
      implies_true, true_and, and_true]
    intro b
    by_cases same : b = first
    · rw [if_pos same, same, if_neg different, if_pos rfl]
    · rw [if_neg same, if_neg (Ne.symm same)]

theorem linkFirst_forms (forms : links.Forms ends items) (new : item ∉ items) :
    (linkFirst links ends item).1.Forms (linkFirst links ends item).2 (item :: items) := by
  rw [linkFirst_eq forms new]
  exact @Links.Forms.splice _ _ _ _ _ [] _ forms new

theorem unlink_eq (forms : links.Forms ends (before ++ item :: after)) :
    unlink links ends item =
      (⟨fun b => if before.getLast? = some b then after.head? else links.next b,
        fun b => if after.head? = some b then before.getLast? else links.prev b⟩,
       ⟨(before ++ after).head?, (before ++ after).getLast?⟩) := by
  obtain ⟨next, prev⟩ := forms.links before item after rfl
  have head := forms.head
  have tail := forms.tail
  obtain ⟨absent, absent', -⟩ := Links.nodup_split forms.nodup
  rw [unlink, next, prev]
  obtain rfl | ⟨earlier, p, rfl⟩ := List.eq_nil_or_concat before
  · cases after with
    | nil => simp [next, prev]
    | cons n after => simp [tail, next, prev, funext_iff, Function.update_apply, eq_comm]
  · cases after with
    | nil => simp [head, next, prev, funext_iff, Function.update_apply, eq_comm]
    | cons n after => simp [head, tail, next, prev, funext_iff, Function.update_apply, eq_comm]

/-- The item that is taken out keeps its links, and the others have those of a list without it. -/
theorem unlink_forms (forms : links.Forms ends (before ++ item :: after)) :
    (unlink links ends item).1.Forms (unlink links ends item).2 (before ++ after) := by
  obtain ⟨absent, absent', -⟩ := Links.nodup_split forms.nodup
  have others : ∀ b ∈ before ++ after, b ≠ item := by
    rintro b inside rfl
    exact (List.mem_append.mp inside).elim absent absent'
  have removed := forms.remove
  rw [forms.remove_eq] at removed
  rw [unlink_eq forms]
  refine removed.congr (fun b inside => ?_) fun b inside => ?_
  · dsimp only
    rw [if_neg (others b inside)]
  · dsimp only
    rw [if_neg (others b inside)]

end

variable {I P : Type} [DecidableEq I] [DecidableEq P] {s s' : PageCache I P} {items : List I}
  {held : I → Int}

/-- The items of the list are those with a page, and the cache has a reference to each of these. -/
structure Lists (s : PageCache I P) (items : List I) (held : I → Int) : Prop where
  forms : s.links.Forms s.ends items
  mem_iff : ∀ i, i ∈ items ↔ (s.cachedPage i).isSome = true
  size_eq : s.size = items.length
  refCount_eq : ∀ i, s.refCount i = held i + if (s.cachedPage i).isSome then 1 else 0
  /-- A page is on one item only, and on none when it waits for its release or is destroyed. -/
  once : ∀ i j page, s.cachedPage i = some page → s.cachedPage j = some page → i = j
  apart : ∀ i page, s.cachedPage i = some page →
    page ∉ s.autoreleaseSet ∧ page ∉ s.destroyed

theorem Lists.remove_some {item : I} {page : P} (lists : s.Lists items held)
    (cached : s.cachedPage item = some page) :
    (s.remove (some item)).Lists (items.erase item) held := by
  have inside : item ∈ items := (lists.mem_iff item).mpr (by rw [cached]; rfl)
  obtain ⟨before, after, rfl⟩ := List.mem_iff_append.mp inside
  obtain ⟨absent, absent', -⟩ := Links.nodup_split lists.forms.nodup
  have rest : (before ++ item :: after).erase item = before ++ after := by
    rw [List.erase_append_right _ absent, List.erase_cons_head]
  rw [remove, cached, rest]
  constructor
  · exact unlink_forms lists.forms
  · intro i
    have whole := lists.mem_iff i
    rw [List.mem_append, List.mem_cons] at whole
    change i ∈ before ++ after ↔ (Function.update s.cachedPage item none i).isSome = true
    rw [List.mem_append]
    by_cases same : i = item
    · rw [same, Function.update_self]
      exact iff_of_false (not_or.mpr ⟨absent, absent'⟩) Bool.false_ne_true
    · rw [Function.update_of_ne same, ← whole, or_iff_right same]
  · have size := lists.size_eq
    rw [List.length_append, List.length_cons] at size
    change s.size - 1 = _
    rw [List.length_append]
    omega
  · intro i
    have count := lists.refCount_eq i
    change Function.update s.refCount item (s.refCount item - 1) i =
      held i + if (Function.update s.cachedPage item none i).isSome then 1 else 0
    by_cases same : i = item
    · rw [same, cached] at count
      rw [same, Function.update_self, Function.update_self, count]
      simp
    · rw [Function.update_of_ne same, Function.update_of_ne same, count]
  · intro i j page' first second
    change Function.update s.cachedPage item none i = some page' at first
    change Function.update s.cachedPage item none j = some page' at second
    rw [Function.update_apply] at first second
    split at first
    · cases first
    · split at second
      · cases second
      · exact lists.once i j page' first second
  · intro i page' first
    change Function.update s.cachedPage item none i = some page' at first
    rw [Function.update_apply] at first
    split at first
    · cases first
    · rename_i different
      obtain ⟨waits, alive⟩ := lists.apart i page' first
      refine ⟨fun inserted => ?_, alive⟩
      obtain rfl | old := Finset.mem_insert.mp inserted
      · exact different (lists.once i item page' first cached)
      · exact waits old

/-- What has no page is left alone. -/
theorem Lists.remove (lists : s.Lists items held) (item : I) :
    (s.remove (some item)).Lists (items.erase item) held := by
  cases cached : s.cachedPage item with
  | some page => exact lists.remove_some cached
  | none =>
    have outside : item ∉ items := by
      rw [lists.mem_iff, cached]
      exact Bool.false_ne_true
    rw [List.erase_of_not_mem outside, PageCache.remove, cached]
    exact lists

theorem remove_capacity (item : Option I) : (s.remove item).capacity = s.capacity := by
  cases item with
  | none => rfl
  | some item =>
    rw [remove]
    cases s.cachedPage item <;> rfl

/-- As many rounds as there are items are enough. -/
theorem Lists.prune (lists : s.Lists items held) (positive : 0 ≤ s.capacity) :
    ∃ s' kept, PageCache.prune items.length s = some s' ∧ kept <+: items ∧ s'.Lists kept held ∧
      s'.size ≤ s'.capacity ∧ s'.capacity = s.capacity := by
  induction items using List.reverseRecOn generalizing s with
  | nil =>
    have small : ¬s.size > s.capacity := by
      rw [lists.size_eq]
      simpa using positive
    exact ⟨s, [], if_neg small, List.prefix_rfl, lists, by omega, rfl⟩
  | append_singleton items last ih =>
    rw [List.length_append, List.length_singleton, PageCache.prune]
    by_cases large : s.size > s.capacity
    · have tail : s.ends.tail = some last := by
        rw [lists.forms.tail, List.getLast?_concat]
      have absent : last ∉ items := by
        obtain ⟨absent, -, -⟩ := Links.nodup_split lists.forms.nodup
        exact absent
      have removed := lists.remove last
      rw [List.erase_append_right _ absent, List.erase_cons_head, List.append_nil] at removed
      obtain ⟨s', kept, ends, within, keeps, small, same⟩ := ih removed (by rwa [remove_capacity])
      rw [remove_capacity] at same
      rw [if_pos large, tail]
      exact ⟨s', kept, ends, within.trans (List.prefix_append _ _), keeps, small, same⟩
    · rw [if_neg large]
      exact ⟨s, items ++ [last], rfl, List.prefix_rfl, lists, by omega, rfl⟩

omit [DecidableEq P] in
theorem Lists.count (lists : s.Lists items held) (item : I) (change : Int) :
    ({ s with refCount := Function.update s.refCount item (s.refCount item + change) } :
        PageCache I P).Lists items (Function.update held item (held item + change)) := by
  refine ⟨lists.forms, lists.mem_iff, lists.size_eq, fun i => ?_, lists.once, lists.apart⟩
  have count := lists.refCount_eq i
  dsimp only
  by_cases same : i = item
  · subst same
    rw [Function.update_self, Function.update_self, count]
    omega
  · rw [Function.update_of_ne same, Function.update_of_ne same, count]

/-- What the item had is taken off it first, so that the new page is its only one. -/
theorem Lists.place {item : I} {page : P} (lists : s.Lists items held)
    (fresh : s.Admits (.add item page)) :
    (s.place item page).Lists (item :: items.erase item) held ∧
      (s.place item page).capacity = s.capacity := by
  obtain ⟨unused, waits, alive⟩ := fresh
  have emptied : (if ((s.ref item).cachedPage item).isSome then (s.ref item).remove (some item)
      else s.ref item) = (s.ref item).remove (some item) := by
    split
    · rfl
    · rename_i none
      rw [Option.not_isSome_iff_eq_none] at none
      rw [PageCache.remove, none]
  have owned : (s.ref item).Lists items (Function.update held item (held item + 1)) :=
    lists.count item 1
  have without := owned.remove item
  -- The page is no page of the state in between either.
  have kept : ((s.ref item).remove (some item)).cachedPage item = none ∧
      (∀ i, ((s.ref item).remove (some item)).cachedPage i ≠ some page) ∧
      page ∉ ((s.ref item).remove (some item)).autoreleaseSet ∧
      page ∉ ((s.ref item).remove (some item)).destroyed := by
    have same : (s.ref item).cachedPage = s.cachedPage := rfl
    rw [PageCache.remove, same]
    cases cached : s.cachedPage item with
    | none => exact ⟨cached, unused, waits, alive⟩
    | some old =>
      refine ⟨Function.update_self .., fun i found => ?_, fun inserted => ?_, alive⟩
      · change Function.update s.cachedPage item none i = some page at found
        rw [Function.update_apply] at found
        split at found
        · cases found
        · exact unused i found
      · obtain rfl | before := Finset.mem_insert.mp inserted
        · exact unused item cached
        · exact waits before
  rw [PageCache.place, emptied]
  have capacity : ((s.ref item).remove (some item)).capacity = s.capacity := remove_capacity _
  generalize (s.ref item).remove (some item) = between at without kept capacity
  obtain ⟨empty, unused, waits, alive⟩ := kept
  have new : item ∉ items.erase item := by
    rw [without.mem_iff, empty]
    exact Bool.false_ne_true
  refine ⟨⟨linkFirst_forms without.forms new, fun i => ?_, ?_, fun i => ?_, ?_, ?_⟩, capacity⟩
  · change i ∈ item :: items.erase item ↔
      (Function.update between.cachedPage item (some page) i).isSome = true
    rw [List.mem_cons]
    by_cases same : i = item
    · rw [same, Function.update_self]
      exact iff_of_true (.inl rfl) rfl
    · rw [Function.update_of_ne same, ← without.mem_iff, or_iff_right same]
  · change between.size + 1 = _
    rw [without.size_eq, List.length_cons]
    rfl
  · have count := without.refCount_eq i
    change between.refCount i =
      held i + if (Function.update between.cachedPage item (some page) i).isSome then 1 else 0
    by_cases same : i = item
    · subst same
      rw [Function.update_self, empty] at count
      rw [Function.update_self, count]
      simp
    · rw [Function.update_of_ne same] at count ⊢
      exact count
  · intro i j page' first second
    change Function.update between.cachedPage item (some page) i = some page' at first
    change Function.update between.cachedPage item (some page) j = some page' at second
    rw [Function.update_apply] at first second
    split at first <;> rename_i here <;> split at second <;> rename_i there
    · rw [here, there]
    · cases first
      exact absurd second (unused j)
    · cases second
      exact absurd first (unused i)
    · exact without.once i j page' first second
  · intro i page' found
    change Function.update between.cachedPage item (some page) i = some page' at found
    rw [Function.update_apply] at found
    split at found
    · cases found
      exact ⟨waits, alive⟩
    · exact without.apart i page' found

/-! Runs. -/

namespace Event

def adds : Event I P → I → Bool
  | .add item _, i => item = i
  | _, _ => false

/-- What another owner does to the references of an item. -/
def change : Event I P → I → Int
  | .ref item, i => if item = i then 1 else 0
  | .deref item, i => if item = i then -1 else 0
  | _, _ => 0

end Event

omit [DecidableEq P] in
/-- The references to an item that other owners have. -/
def heldBy (events : List (Event I P)) (i : I) : Int := (events.map (·.change i)).sum

omit [DecidableEq P] in
/-- How many events ago an item was added. -/
def sinceAdded (events : List (Event I P)) (i : I) : Nat :=
  (events.reverse.takeWhile (!·.adds i)).length

/-- Those that were added last are first. -/
def MostRecentFirst (events : List (Event I P)) (items : List I) : Prop :=
  items.Pairwise fun a b => sinceAdded events a < sinceAdded events b

variable {events : List (Event I P)} {event : Event I P}

omit [DecidableEq P] in
theorem heldBy_append (i : I) :
    heldBy (events ++ [event]) i = heldBy events i + event.change i := by
  rw [heldBy, List.map_append, List.sum_append, List.map_singleton, List.sum_singleton, heldBy]

omit [DecidableEq P] in
theorem sinceAdded_append (i : I) :
    sinceAdded (events ++ [event]) i = if event.adds i then 0 else sinceAdded events i + 1 := by
  rw [sinceAdded, List.reverse_append, List.reverse_singleton, List.singleton_append]
  by_cases adds : event.adds i = true
  · rw [if_pos adds, List.takeWhile_cons_of_neg (by simp [adds]), List.length_nil]
  · rw [if_neg adds, List.takeWhile_cons_of_pos (by simp [adds]), List.length_cons, sinceAdded]

omit [DecidableEq P] in
/-- Events that add nothing keep the order. -/
theorem MostRecentFirst.later (ordered : MostRecentFirst events items)
    (none : ∀ i, event.adds i = false) : MostRecentFirst (events ++ [event]) items := by
  refine ordered.imp fun {a b} earlier => ?_
  rw [sinceAdded_append, sinceAdded_append, none, none]
  simpa using earlier

omit [DecidableEq P] in
theorem MostRecentFirst.add (ordered : MostRecentFirst events items) {item : I} (page : P)
    (absent : item ∉ items) : MostRecentFirst (events ++ [.add item page]) (item :: items) := by
  refine List.pairwise_cons.mpr ⟨fun b inside => ?_, ordered.imp_of_mem ?_⟩
  · have different : ¬item = b := by
      rintro rfl
      exact absent inside
    rw [sinceAdded_append, sinceAdded_append]
    simp [Event.adds, different]
  · intro a b first second earlier
    have different : ¬item = a ∧ ¬item = b := by
      refine ⟨?_, ?_⟩ <;> rintro rfl
      · exact absent first
      · exact absent second
    rw [sinceAdded_append, sinceAdded_append]
    simpa [Event.adds, different] using earlier

/-- What holds in every state that is reached. -/
structure Invariant (events : List (Event I P)) (s : PageCache I P) : Prop where
  lists : ∃ items, s.Lists items (heldBy events) ∧ MostRecentFirst events items
  size_le : s.size ≤ s.capacity
  capacity_pos : 0 ≤ s.capacity

omit [DecidableEq P] in
theorem invariant_start (links : Links I) : Invariant [] ({ links } : PageCache I P) := by
  refine ⟨⟨[], ⟨.nil, fun i => ?_, rfl, fun i => rfl, ?_, ?_⟩, List.Pairwise.nil⟩, le_rfl, le_rfl⟩
  · exact iff_of_false List.not_mem_nil Bool.false_ne_true
  · intro i j page none
    cases none
  · intro i page none
    cases none

omit [DecidableEq P] in
theorem heldBy_update {item : I} {change : Int}
    (only : event.change = fun i => if item = i then change else 0) :
    heldBy (events ++ [event]) =
      Function.update (heldBy events) item (heldBy events item + change) := by
  funext i
  rw [heldBy_append, only, Function.update_apply]
  dsimp only
  by_cases same : item = i
  · subst same
    rw [if_pos rfl, if_pos rfl]
  · rw [if_neg same, if_neg (Ne.symm same), Int.add_zero]

omit [DecidableEq I] in
/-- The pages that waited for their release are on no item. -/
theorem Lists.release (lists : s.Lists items held) : s.releaseAutoreleasedPagesNow.Lists items held := by
  refine ⟨lists.forms, lists.mem_iff, lists.size_eq, lists.refCount_eq, lists.once,
    fun i page cached => ⟨Finset.notMem_empty page, fun destroyed => ?_⟩⟩
  obtain ⟨waits, alive⟩ := lists.apart i page cached
  obtain before | now := Finset.mem_union.mp destroyed
  · exact alive before
  · exact waits now

theorem Invariant.step (invariant : Invariant events s) (admitted : s.Admits event) :
    ∃ s', s.step event = some s' ∧ Invariant (events ++ [event]) s' := by
  obtain ⟨⟨items, lists, ordered⟩, small, positive⟩ := invariant
  have unheld : (∀ i, event.change i = 0) → heldBy (events ++ [event]) = heldBy events := by
    intro none
    funext i
    rw [heldBy_append, none, Int.add_zero]
  cases event with
  | add item page =>
    obtain ⟨placed, capacity⟩ := lists.place admitted
    have absent : item ∉ items.erase item := (List.nodup_cons.mp placed.forms.nodup).1
    obtain ⟨s', kept, ends, within, keeps, small', same⟩ := placed.prune (capacity ▸ positive)
    refine ⟨s', ?_, ⟨kept, ?_, ?_⟩, small', ?_⟩
    · change PageCache.prune (s.place item page).size.toNat (s.place item page) = some s'
      rw [placed.size_eq]
      exact ends
    · rw [unheld fun _ => rfl]
      exact keeps
    · have without : MostRecentFirst events (items.erase item) := ordered.sublist List.erase_sublist
      exact (without.add page absent).sublist within.sublist
    · rw [same, capacity]
      exact positive
  | remove item =>
    cases item with
    | none =>
      refine ⟨s, rfl, ⟨items, ?_, ordered.later fun _ => rfl⟩, small, positive⟩
      rw [unheld fun _ => rfl]
      exact lists
    | some item =>
      refine ⟨_, rfl, ⟨items.erase item, ?_, ?_⟩, ?_, ?_⟩
      · rw [unheld fun _ => rfl]
        exact lists.remove item
      · exact (ordered.later fun _ => rfl).sublist List.erase_sublist
      · rw [(lists.remove item).size_eq, remove_capacity]
        have fewer := (List.erase_sublist (l := items) (a := item)).length_le
        have size := lists.size_eq
        omega
      · rw [remove_capacity]
        exact positive
  | setCapacity capacity =>
    have resized : ({ s with capacity := max capacity 0 } : PageCache I P).Lists items
        (heldBy events) :=
      ⟨lists.forms, lists.mem_iff, lists.size_eq, lists.refCount_eq, lists.once, lists.apart⟩
    obtain ⟨s', kept, ends, within, keeps, small', same⟩ := resized.prune (le_max_right _ _)
    refine ⟨s', ?_, ⟨kept, ?_, ?_⟩, small', ?_⟩
    · have rounds : s.size.toNat = items.length := by
        rw [lists.size_eq]
        rfl
      change PageCache.prune s.size.toNat _ = some s'
      rw [rounds]
      exact ends
    · rw [unheld fun _ => rfl]
      exact keeps
    · exact (ordered.later fun _ => rfl).sublist within.sublist
    · rw [same]
      exact le_max_right _ _
  | releaseAutoreleasedPagesNow =>
    refine ⟨_, rfl, ⟨items, ?_, ordered.later fun _ => rfl⟩, small, positive⟩
    rw [unheld fun _ => rfl]
    exact lists.release
  | timer busy =>
    refine ⟨_, rfl, ?_⟩
    unfold releaseAutoreleasedPagesNowOrReschedule
    split
    · refine ⟨⟨items, ?_, ordered.later fun _ => rfl⟩, small, positive⟩
      rw [unheld fun _ => rfl]
      exact ⟨lists.forms, lists.mem_iff, lists.size_eq, lists.refCount_eq, lists.once, lists.apart⟩
    · refine ⟨⟨items, ?_, ordered.later fun _ => rfl⟩, small, positive⟩
      rw [unheld fun _ => rfl]
      exact lists.release
  | ref item =>
    refine ⟨_, rfl, ⟨items, ?_, ordered.later fun _ => rfl⟩, small, positive⟩
    rw [heldBy_update rfl]
    exact lists.count item 1
  | deref item =>
    refine ⟨_, rfl, ⟨items, ?_, ordered.later fun _ => rfl⟩, small, positive⟩
    rw [heldBy_update rfl]
    exact lists.count item (-1)

/-- In every state that is reached the list has its order and its size, and every operation ends. -/
theorem keeps_mostRecentFirst (reachable : Reachable events s) :
    Invariant events s ∧ ∀ event, s.Admits event → (s.step event).isSome = true := by
  have invariant : Invariant events s := by
    induction reachable with
    | start links => exact invariant_start links
    | step event _ admitted stepped ih =>
      obtain ⟨next, taken, invariant⟩ := ih.step admitted
      rw [stepped] at taken
      cases taken
      exact invariant
  refine ⟨invariant, fun event admitted => ?_⟩
  obtain ⟨next, taken, -⟩ := invariant.step admitted
  rw [taken]
  rfl

/-- One page takes the place of another in a cache for one. -/
theorem keeps_mostRecentFirst_twoPages : ∃ s : PageCache Nat Nat,
    (Invariant [.setCapacity 1, .add 0 10, .add 1 11] s ∧
      ∀ event, s.Admits event → (s.step event).isSome = true) ∧
    s.ends = ⟨some 1, some 1⟩ ∧ s.autoreleaseSet = {10} := by
  have start : Reachable ([] : List (Event Nat Nat)) { links := ⟨fun _ => none, fun _ => none⟩ } :=
    .start _
  have sized := Reachable.step (.setCapacity 1) start trivial rfl
  have unused : ∀ i, (fun _ => none : Nat → Option Nat) i ≠ some 10 := by
    intro i cached
    cases cached
  have first := Reachable.step (.add 0 10) sized
    ⟨unused, Finset.notMem_empty 10, Finset.notMem_empty 10⟩ rfl
  have unused' : ∀ i, Function.update (fun _ => none) 0 (some 10) i ≠ some 11 := by
    intro i cached
    rw [Function.update_apply] at cached
    split at cached <;> cases cached
  have second := Reachable.step (.add 1 11) first
    ⟨unused', Finset.notMem_empty 11, Finset.notMem_empty 11⟩ rfl
  exact ⟨_, keeps_mostRecentFirst second, rfl, rfl⟩

end WkcBrowser.History.PageCache
