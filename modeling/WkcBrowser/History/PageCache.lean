import Mathlib.Data.Finset.Card
import WkcBrowser.Lib.LinkedList

/-! WebCore's `PageCache`: the list of the history items with a cached page, and the pages that wait for
their release. -/

namespace WkcBrowser.History

open Lib

/-- The cache, with what it keeps in the items. -/
structure PageCache (I P : Type) where
  capacity : Int := 0
  size : Int := 0
  /-- `m_next` and `m_prev` of the items. -/
  links : Links I
  /-- `m_head` and `m_tail` -/
  ends : Ends I := {}
  /-- The timer is active. -/
  autoreleaseTimer : Bool := false
  autoreleaseSet : Finset P := ∅
  cachedPage : I → Option P := fun _ => none
  refCount : I → Int := fun _ => 0
  /-- The pages that `destroy` was called of. -/
  destroyed : Finset P := ∅

namespace PageCache

variable {I P : Type} [DecidableEq I] [DecidableEq P]

def ref (s : PageCache I P) (item : I) : PageCache I P :=
  { s with refCount := Function.update s.refCount item (s.refCount item + 1) }

def deref (s : PageCache I P) (item : I) : PageCache I P :=
  { s with refCount := Function.update s.refCount item (s.refCount item - 1) }

/-- What `addToLRUList` writes. -/
def linkFirst (links : Links I) (ends : Ends I) (item : I) : Links I × Ends I :=
  let linked : Links I :=
    ⟨Function.update links.next item ends.head, Function.update links.prev item none⟩
  match ends.head with
  | some first =>
    ({ linked with prev := Function.update linked.prev first (some item) }, ⟨some item, ends.tail⟩)
  | none => (linked, ⟨some item, some item⟩)

def addToLRUList (s : PageCache I P) (item : I) : PageCache I P :=
  let (links, ends) := linkFirst s.links s.ends item
  { s with links, ends }

/-- What `removeFromLRUList` writes. The item keeps its own links. -/
def unlink (links : Links I) (ends : Ends I) (item : I) : Links I × Ends I :=
  let (backward, tail) := match links.next item with
    | none => (links, links.prev item)
    | some next =>
      ({ links with prev := Function.update links.prev next (links.prev item) }, ends.tail)
  match backward.prev item with
  | none => (backward, ⟨backward.next item, tail⟩)
  | some prev =>
    ({ backward with next := Function.update backward.next prev (backward.next item) },
      ⟨ends.head, tail⟩)

def removeFromLRUList (s : PageCache I P) (item : I) : PageCache I P :=
  let (links, ends) := unlink s.links s.ends item
  { s with links, ends }

def autorelease (s : PageCache I P) (page : P) : PageCache I P :=
  { s with autoreleaseSet := insert page s.autoreleaseSet, autoreleaseTimer := true }

def remove (s : PageCache I P) : Option I → PageCache I P
  | none => s
  | some item =>
    match s.cachedPage item with
    | none => s
    | some page =>
      let released := { s with cachedPage := Function.update s.cachedPage item none }
      let unlisted := (released.autorelease page).removeFromLRUList item
      { unlisted with size := unlisted.size - 1 }.deref item

/-- The loop of `prune`, or none where it is not over after as many rounds. -/
def prune : Nat → PageCache I P → Option (PageCache I P)
  | 0, s => if s.size > s.capacity then none else some s
  | rounds + 1, s => if s.size > s.capacity then prune rounds (s.remove s.ends.tail) else some s

/-- The body of `add` before it prunes. -/
def place (s : PageCache I P) (item : I) (page : P) : PageCache I P :=
  let owned := s.ref item
  let emptied := if (owned.cachedPage item).isSome then owned.remove (some item) else owned
  let holding := { emptied with cachedPage := Function.update emptied.cachedPage item (some page) }
  let listed := holding.addToLRUList item
  { listed with size := listed.size + 1 }

def releaseAutoreleasedPagesNow (s : PageCache I P) : PageCache I P :=
  { s with
    autoreleaseTimer := false
    autoreleaseSet := ∅
    destroyed := s.destroyed ∪ s.autoreleaseSet }

/-- It is postponed while there was a load or an input just before, unless too many pages wait. -/
def releaseAutoreleasedPagesNowOrReschedule (s : PageCache I P) (busy : Bool) : PageCache I P :=
  if busy && s.autoreleaseSet.card < 42 then { s with autoreleaseTimer := true }
  else s.releaseAutoreleasedPagesNow

inductive Event (I P : Type) where
  | add (item : I) (page : P)
  | remove (item : Option I)
  | setCapacity (capacity : Int)
  | releaseAutoreleasedPagesNow
  /-- The timer fires. -/
  | timer (busy : Bool)
  /-- Another owner of an item takes or drops a reference. -/
  | ref (item : I)
  | deref (item : I)

/-- None where the loop of `prune` would go on. -/
def step (s : PageCache I P) : Event I P → Option (PageCache I P)
  | .add item page =>
    let placed := s.place item page
    prune placed.size.toNat placed
  | .remove item => some (s.remove item)
  | .setCapacity capacity =>
    prune s.size.toNat { s with capacity := max capacity 0 }
  | .releaseAutoreleasedPagesNow => some s.releaseAutoreleasedPagesNow
  | .timer busy =>
    some ({ s with autoreleaseTimer := false }.releaseAutoreleasedPagesNowOrReschedule busy)
  | .ref item => some (s.ref item)
  | .deref item => some (s.deref item)

/-- `FrameLoader` adds a page that it has just created. -/
def Admits (s : PageCache I P) : Event I P → Prop
  | .add _ page => (∀ i, s.cachedPage i ≠ some page) ∧ page ∉ s.autoreleaseSet ∧ page ∉ s.destroyed
  | _ => True

/-- The states of all runs, with the events so far. The links of an item are not initialized. -/
inductive Reachable : List (Event I P) → PageCache I P → Prop where
  | start (links : Links I) : Reachable [] { links }
  | step {events : List (Event I P)} {s s' : PageCache I P} (event : Event I P) :
    Reachable events s → s.Admits event → s.step event = some s' →
      Reachable (events ++ [event]) s'

end PageCache

end WkcBrowser.History
