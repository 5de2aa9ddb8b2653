import WkcBrowser.PropertyList.Serializer

/-! The objects of a property list. A value that is shared is one object wherever it is written; all
others are objects of their own. An object comes after the ones it refers to, and its place in the
list is its reference. -/

namespace WkcBrowser.PropertyList

open Wtf Lib.ByteOrder

inductive Object where
  | booleanTrue
  | integer (n : Nat)
  | string (s : Text)
  | integerArray (integers : List Nat)
  | uniqueString (s : Text)
  | uniqueCString (s : List Byte)
  | array (references : List Nat)
  | dictionary (references : List Nat)
deriving DecidableEq

/-- A shared object is added once. -/
def share (object : Object) (objects : List Object) : List Object :=
  if object ∈ objects then objects else objects ++ [object]

def shareIntegers (integers : List Nat) (objects : List Object) : List Object :=
  integers.foldl (fun objects n => share (.integer n) objects) objects

/-- The objects after a value was written, and where it is. The trace lists the places of all values
in the order in which they are finished. -/
structure Enlisted where
  objects : List Object
  reference : Nat
  trace : List Nat

structure EnlistedAll where
  objects : List Object
  references : List Nat
  trace : List Nat

def enlistShared (object : Object) (objects : List Object) : Enlisted :=
  let reference := (share object objects).idxOf object
  { objects := share object objects, reference, trace := [reference] }

def enlistUnique (object : Object) (objects : List Object) : Enlisted :=
  { objects := objects ++ [object], reference := objects.length, trace := [objects.length] }

def EnlistedAll.close (items : EnlistedAll) (object : Object) : Enlisted :=
  { objects := items.objects ++ [object]
    reference := items.objects.length
    trace := items.trace ++ [items.objects.length] }

mutual

def Value.enlist : Value → List Object → Enlisted
  | .booleanTrue, objects => enlistShared .booleanTrue objects
  | .integer n, objects => enlistShared (.integer n) objects
  | .string s, objects => enlistShared (.string s) objects
  | .integerArray integers, objects =>
    enlistShared (.integerArray integers) (shareIntegers integers objects)
  | .uniqueString s, objects => enlistUnique (.uniqueString s) objects
  | .uniqueCString s, objects => enlistUnique (.uniqueCString s) objects
  | .array items, objects =>
    let all := enlistAll items objects
    all.close (.array all.references)
  | .dictionary items, objects =>
    let all := enlistAll items objects
    all.close (.dictionary all.references)

def enlistAll : List Value → List Object → EnlistedAll
  | [], objects => { objects, references := [], trace := [] }
  | item :: items, objects =>
    let first := item.enlist objects
    let rest := enlistAll items first.objects
    { objects := rest.objects
      references := first.reference :: rest.references
      trace := first.trace ++ rest.trace }

end

/-- All objects of a list. -/
def Value.objects (client : Value) : List Object :=
  (client.enlist []).objects

/-- What may come next in a list of objects. -/
def Object.Next (objects : List Object) : Object → Prop
  | .booleanTrue => .booleanTrue ∉ objects
  | .integer n => n < 2 ^ 31 ∧ .integer n ∉ objects
  | .string s => s.length < 2 ^ 32 ∧ .string s ∉ objects
  | .integerArray integers => integers ≠ [] ∧ .integerArray integers ∉ objects ∧
    ∀ n ∈ integers, .integer n ∈ objects
  | .uniqueString s => s.length < 2 ^ 32
  | .uniqueCString _ => True
  | .array references => references ≠ [] ∧ ∀ reference ∈ references, reference < objects.length
  | .dictionary references => references ≠ [] ∧ references.length % 2 = 0 ∧
    ∀ reference ∈ references, reference < objects.length

/-- A list of objects that was put together one after the other. -/
inductive Listed : List Object → Prop where
  | nil : Listed []
  | snoc {objects : List Object} {object : Object} (listed : Listed objects)
    (next : object.Next objects) : Listed (objects ++ [object])

section
variable {objects : List Object} {object : Object}

theorem prefix_share : objects <+: share object objects := by
  unfold share
  split
  · exact List.prefix_refl _
  · exact List.prefix_append ..

theorem mem_share : object ∈ share object objects := by
  unfold share
  split
  · assumption
  · exact List.mem_append_right _ List.mem_cons_self

theorem mem_share_iff {other : Object} :
    other ∈ share object objects ↔ other ∈ objects ∨ other = object := by
  unfold share
  split
  · rename_i member
    exact ⟨Or.inl, fun found => found.elim id fun same => same ▸ member⟩
  · rw [List.mem_append, List.mem_singleton]

theorem Listed.share (listed : Listed objects) (next : object ∉ objects → object.Next objects) :
    Listed (share object objects) := by
  unfold PropertyList.share
  split
  · exact listed
  · exact listed.snoc (next ‹_›)

theorem prefix_shareIntegers (integers : List Nat) :
    objects <+: shareIntegers integers objects := by
  induction integers generalizing objects with
  | nil => exact List.prefix_refl _
  | cons n integers ih => exact prefix_share.trans ih

theorem mem_shareIntegers {integers : List Nat} {n : Nat} (member : n ∈ integers) :
    .integer n ∈ shareIntegers integers objects := by
  induction integers generalizing objects with
  | nil => cases member
  | cons first integers ih =>
    rcases List.mem_cons.mp member with rfl | later
    · exact (prefix_shareIntegers integers).subset mem_share
    · exact ih later

theorem Listed.shareIntegers {integers : List Nat} (listed : Listed objects)
    (short : ∀ n ∈ integers, n < 2 ^ 31) : Listed (shareIntegers integers objects) := by
  induction integers generalizing objects with
  | nil => exact listed
  | cons n integers ih =>
    apply ih
    · exact listed.share fun new => ⟨short n List.mem_cons_self, new⟩
    · exact fun other member => short other (List.mem_cons_of_mem _ member)

theorem enlistShared_reference :
    (enlistShared object objects).reference < (enlistShared object objects).objects.length :=
  List.idxOf_lt_length_iff.mpr mem_share

end

mutual

theorem Value.prefix_enlist : ∀ (value : Value) (objects : List Object),
    objects <+: (value.enlist objects).objects
  | .booleanTrue, _ | .integer _, _ | .string _, _ => prefix_share
  | .integerArray integers, _ => (prefix_shareIntegers integers).trans prefix_share
  | .uniqueString _, _ | .uniqueCString _, _ => List.prefix_append ..
  | .array items, objects | .dictionary items, objects =>
    (prefix_enlistAll items objects).trans (List.prefix_append ..)

theorem prefix_enlistAll : ∀ (items : List Value) (objects : List Object),
    objects <+: (enlistAll items objects).objects
  | [], _ => List.prefix_refl _
  | item :: items, objects => (item.prefix_enlist objects).trans (prefix_enlistAll items _)

end

theorem Value.reference_lt (value : Value) (objects : List Object) :
    (value.enlist objects).reference < (value.enlist objects).objects.length := by
  cases value with
  | booleanTrue | integer | string | integerArray => exact enlistShared_reference
  | _ => simp [Value.enlist, enlistUnique, EnlistedAll.close]

theorem references_lt (items : List Value) (objects : List Object) :
    ∀ reference ∈ (enlistAll items objects).references,
      reference < (enlistAll items objects).objects.length := by
  induction items generalizing objects with
  | nil => simp [enlistAll]
  | cons item items ih =>
    intro reference member
    rcases List.mem_cons.mp member with rfl | later
    · have within := (prefix_enlistAll items (item.enlist objects).objects).length_le
      exact Nat.lt_of_lt_of_le (item.reference_lt objects) within
    · exact ih _ reference later

theorem length_references (items : List Value) (objects : List Object) :
    (enlistAll items objects).references.length = items.length := by
  induction items generalizing objects with
  | nil => rfl
  | cons item items ih => exact congrArg (· + 1) (ih _)

theorem references_ne_nil {items : List Value} (some_ : items ≠ []) (objects : List Object) :
    (enlistAll items objects).references ≠ [] := by
  intro none_
  apply some_
  rw [← List.length_eq_zero_iff, ← length_references items objects, none_]
  rfl

mutual

theorem Listed.enlist : ∀ (value : Value) {objects : List Object}, value.WellFormed →
    Listed objects → Listed (value.enlist objects).objects
  | .booleanTrue, _, _, listed => listed.share id
  | .integer _, _, short, listed | .string _, _, short, listed => listed.share fun new => ⟨short, new⟩
  | .integerArray _, _, ⟨some_, short⟩, listed =>
    (listed.shareIntegers short).share fun new => ⟨some_, new, fun _ => mem_shareIntegers⟩
  | .uniqueString _, _, short, listed => listed.snoc short
  | .uniqueCString _, _, _, listed => listed.snoc trivial
  | .array items, objects, ⟨some_, wellFormed⟩, listed =>
    (Listed.enlistAll items wellFormed listed).snoc
      ⟨references_ne_nil some_ objects, references_lt items objects⟩
  | .dictionary items, objects, ⟨some_, even, wellFormed⟩, listed =>
    (Listed.enlistAll items wellFormed listed).snoc ⟨references_ne_nil some_ objects,
      (length_references items objects).symm ▸ even, references_lt items objects⟩

theorem Listed.enlistAll : ∀ (items : List Value) {objects : List Object}, AllWellFormed items →
    Listed objects → Listed (enlistAll items objects).objects
  | [], _, _, listed => listed
  | item :: items, _, ⟨first, rest⟩, listed =>
    Listed.enlistAll items rest (Listed.enlist item first listed)

end

/-- The integers of an array are objects of the list. -/
theorem Listed.integers {objects : List Object} (listed : Listed objects) {integers : List Nat}
    (member : .integerArray integers ∈ objects) : ∀ n ∈ integers, .integer n ∈ objects := by
  induction listed with
  | nil => cases member
  | snoc _ next ih =>
    intro n inside
    apply List.mem_append_left
    rcases List.mem_append.mp member with old | new
    · exact ih old n inside
    · rw [← List.mem_singleton.mp new] at next
      exact next.2.2 n inside

end WkcBrowser.PropertyList
