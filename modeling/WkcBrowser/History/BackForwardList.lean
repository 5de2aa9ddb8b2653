import Mathlib.Algebra.Group.Int.Defs
import Mathlib.Algebra.Group.Nat.Defs
import Mathlib.Data.Finset.Basic
import WkcBrowser.Lib.Along

/-! WebCore's `BackForwardList`: the items of the session history and the index of the current one. -/

namespace WkcBrowser.History

open Lib

def NoCurrentItemIndex : UInt32 := 0xffffffff

def DefaultCapacity : UInt32 := 100

/-- The list, with the documents of all items. -/
structure BackForwardList (I D : Type) where
  entries : List I := []
  entryHash : Finset I := ∅
  current : UInt32 := NoCurrentItemIndex
  capacity : UInt32 := DefaultCapacity
  enabled : Bool := true
  document : I → Option D
  /-- The last item of an empty list or the document of a null item was asked for. -/
  undefined : Bool := false

namespace BackForwardList

variable {I D : Type} [DecidableEq I] [DecidableEq D]

def currentItem (s : BackForwardList I D) : Option I :=
  if s.current ≠ NoCurrentItemIndex then s.entries[s.current.toNat]? else none

def backItem (s : BackForwardList I D) : Option I :=
  if s.current ≠ 0 && s.current ≠ NoCurrentItemIndex then s.entries[(s.current - 1).toNat]? else none

/-- `m_entries.size()`. -/
def size (s : BackForwardList I D) : UInt32 := .ofNat s.entries.length

def forwardItem (s : BackForwardList I D) : Option I :=
  if s.size ≠ 0 && s.current < s.size - 1 then s.entries[(s.current + 1).toNat]? else none

/-- The item is taken out of the list and of the hash set. -/
def toss (s : BackForwardList I D) (index : Nat) : BackForwardList I D :=
  match s.entries[index]? with
  | some item =>
    { s with entries := s.entries.eraseIdx index, entryHash := s.entryHash.erase item }
  | none => { s with undefined := true }

/-- The loop that tosses the last item while there are too many, in some rounds. -/
def tossLast (targetSize : Int) : Nat → BackForwardList I D → BackForwardList I D
  | 0, s => s
  | rounds + 1, s =>
    if targetSize < s.entries.length then tossLast targetSize rounds (s.toss (s.entries.length - 1))
    else s

def insertItemAfterCurrent (s : BackForwardList I D) (item : I) (removeForwardList : Bool) :
    BackForwardList I D :=
  if s.capacity = 0 || !s.enabled then s
  else
    let tossed :=
      if removeForwardList && s.current ≠ NoCurrentItemIndex then
        tossLast (s.current + 1).toNat (s.entries.length + 1) s
      else s
    let fitting :=
      if tossed.size = tossed.capacity && (tossed.current ≠ 0 || tossed.capacity = 1) then
        { tossed.toss 0 with current := tossed.current - 1 }
      else tossed
    { fitting with
      entryHash := insert item fitting.entryHash
      entries := fitting.entries.insertIdx (fitting.current + 1).toNat item
      current := fitting.current + 1 }

def addItem (s : BackForwardList I D) (item : I) : BackForwardList I D :=
  s.insertItemAfterCurrent item true

def goBack (s : BackForwardList I D) : BackForwardList I D :=
  if s.current > 0 then { s with current := s.current - 1 } else s

def goForward (s : BackForwardList I D) : BackForwardList I D :=
  if s.current < s.size - 1 then { s with current := s.current + 1 } else s

def goToItem (s : BackForwardList I D) : Option I → BackForwardList I D
  | none => s
  | some item =>
    let index := s.entries.idxOf item
    if index < s.entries.length then { s with current := .ofNat index } else s

/-- An empty list is asked for its last item when the size is negative. -/
def setCapacity (s : BackForwardList I D) (size : Int32) : BackForwardList I D :=
  let tossed := tossLast size.toInt (s.entries.length + 1) s
  let moved :=
    if size = 0 then { tossed with current := NoCurrentItemIndex }
    else if tossed.current > tossed.size - 1 then { tossed with current := tossed.size - 1 }
    else tossed
  { moved with capacity := size.toUInt32 }

def setEnabled (s : BackForwardList I D) (enabled : Bool) : BackForwardList I D :=
  let switched := { s with enabled }
  if enabled then switched else (switched.setCapacity 0).setCapacity s.capacity.toInt32

def removeItem (s : BackForwardList I D) : Option I → BackForwardList I D
  | none => s
  | some item =>
    let i := s.entries.idxOf item
    if i < s.entries.length then
      let removed := s.toss i
      if s.current = NoCurrentItemIndex || s.current.toNat < i then removed
      else if s.current.toNat > i then { removed with current := s.current - 1 }
      else if s.current ≥ removed.size then
        { removed with current := if removed.size ≠ 0 then removed.size - 1 else NoCurrentItemIndex }
      else removed
    else s

/-- The loop of `pushStateItem`, in some rounds. -/
def removeForwardItems (newItemDocument : Option D) :
    Nat → BackForwardList I D → BackForwardList I D
  | 0, s => s
  | rounds + 1, s =>
    match s.forwardItem with
    | some item =>
      if s.document item ≠ newItemDocument then s
      else removeForwardItems newItemDocument rounds (s.removeItem item)
    | none => s

def pushStateItem (s : BackForwardList I D) (newItem : I) : BackForwardList I D :=
  let newItemDocument := s.document newItem
  let removed := removeForwardItems newItemDocument s.entries.length s
  let inserted := removed.insertItemAfterCurrent newItem false
  match s.currentItem with
  | some current =>
    if (s.document current).isNone then
      { inserted with document := Function.update s.document current newItemDocument }
    else inserted
  | none => { inserted with undefined := true }

inductive Operation (I D : Type) where
  | addItem (item : I)
  | pushStateItem (newItem : I)
  | goBack
  | goForward
  | goToItem (item : Option I)
  | removeItem (item : Option I)
  | setCapacity (size : Int32)
  | setEnabled (enabled : Bool)
  /-- The document of an item is set from outside of the list. -/
  | setDocument (item : I) (document : Option D)

def step (s : BackForwardList I D) : Operation I D → BackForwardList I D
  | .addItem item => s.addItem item
  | .pushStateItem newItem => s.pushStateItem newItem
  | .goBack => s.goBack
  | .goForward => s.goForward
  | .goToItem item => s.goToItem item
  | .removeItem item => s.removeItem item
  | .setCapacity size => s.setCapacity size
  | .setEnabled enabled => s.setEnabled enabled
  | .setDocument item document =>
    { s with document := Function.update s.document item document }

/-- The items that are added are fresh, and there is an item to go to. -/
def Admits (s : BackForwardList I D) : Operation I D → Prop
  | .addItem item => item ∉ s.entries
  | .pushStateItem newItem => newItem ∉ s.entries
  | .goBack => s.backItem.isSome
  | .goForward => s.forwardItem.isSome
  | _ => True

/-- The list is within its capacity, its index is valid, and the hash set has its entries. -/
structure Consistent (s : BackForwardList I D) : Prop where
  defined : s.undefined = false
  within : s.entries.length ≤ s.capacity.toNat
  empty : s.entries = [] → s.current = NoCurrentItemIndex
  valid : s.entries ≠ [] → s.current.toNat < s.entries.length
  hash : ∀ item, item ∈ s.entryHash ↔ item ∈ s.entries

/-- An operation comes to a consistent state, and what stays in the list keeps its order. -/
def Keeps (s : BackForwardList I D) (operation : Operation I D) : Prop :=
  (s.step operation).Consistent ∧
    ((s.step operation).entries.filter (· ∈ s.entries)).Sublist s.entries

/-- The list is full, its first entry is current, and the next one, which has another document than
the new item, is kept. -/
def Overflows (s : BackForwardList I D) (newItem : I) : Prop :=
  s.enabled = true ∧ s.entries.length = s.capacity.toNat ∧ s.current = 0 ∧
    ∃ next, s.forwardItem = some next ∧ s.document next ≠ s.document newItem

/-- A state is pushed while there is a current item and where the list does not overflow, and no
capacity is negative. -/
def Safe (s : BackForwardList I D) : Operation I D → Prop
  | .pushStateItem newItem => s.currentItem.isSome ∧ ¬s.Overflows newItem
  | .setCapacity size => 0 ≤ size.toInt
  | _ => True

end BackForwardList

end WkcBrowser.History
