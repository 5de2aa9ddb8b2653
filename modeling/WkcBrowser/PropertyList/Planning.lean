import WkcBrowser.PropertyList.Objects

/-! The plan agrees with the list of objects. A shared object is planned for its place in the list and
the counts are those of the objects listed. -/

namespace WkcBrowser.PropertyList

open Wtf

@[simp] theorem Target.size_add (target : Target) (m n : Nat) :
    target.size (target.size m + n) = target.size (m + n) :=
  Nat.mod_add_mod ..

@[simp] theorem Target.size_size (target : Target) (n : Nat) :
    target.size (target.size n) = target.size n :=
  Nat.mod_mod ..

section
variable (target : Target)

def stringByteCount (s : Text) : Nat :=
  markerPlusLengthByteCount target s.length + s.length +
    if charactersAreAllASCII s then 0 else s.length

/-- The bytes of an object without its references. -/
def Object.byteCount : Object → Nat
  | .booleanTrue => 1
  | .integer n => integerByteCount target n
  | .string s | .uniqueString s => stringByteCount target s
  | .uniqueCString s => markerPlusLengthByteCount target (unsigned s.length) + unsigned s.length
  | .integerArray integers => markerPlusLengthByteCount target integers.length
  | .array references => markerPlusLengthByteCount target references.length
  | .dictionary references => markerPlusLengthByteCount target (references.length / 2)

def Object.referenceCount : Object → Nat
  | .integerArray integers => integers.length
  | .array references | .dictionary references => references.length
  | _ => 0

def byteCount (objects : List Object) : Nat :=
  (objects.map (·.byteCount target)).sum

def referenceCount (objects : List Object) : Nat :=
  (objects.map (·.referenceCount)).sum

@[simp] theorem byteCount_snoc (objects : List Object) (object : Object) :
    byteCount target (objects ++ [object]) = byteCount target objects + object.byteCount target := by
  simp [byteCount]

@[simp] theorem referenceCount_snoc (objects : List Object) (object : Object) :
    referenceCount (objects ++ [object]) = referenceCount objects + object.referenceCount := by
  simp [referenceCount]

end

def Object.isShared : Object → Bool
  | .booleanTrue | .integer _ | .string _ | .integerArray _ => true
  | _ => false

def place (object : Object) (objects : List Object) : Option Nat :=
  if object ∈ objects then some (objects.idxOf object) else none

/-- The reference that the plan has for a shared object. -/
def Plan.place (plan : Plan) : Object → Option Nat
  | .booleanTrue => plan.booleanTrueObjectReference
  | .integer n => if n = 0 then plan.integerZeroObjectReference else plan.integers n
  | .string s => plan.strings s
  | .integerArray integers => plan.integerArrays integers
  | _ => none

structure Plan.Describes (target : Target) (plan : Plan) (objects : List Object) : Prop where
  places : ∀ object, object.isShared → plan.place object = PropertyList.place object objects
  current : plan.currentObjectReference = objects.length
  bytes : plan.byteCount = target.size (PropertyList.byteCount target objects)
  references : plan.objectReferenceCount = target.size (referenceCount objects)

section
variable {target : Target} {plan plan' : Plan} {objects : List Object} {object : Object}

theorem place_of_mem (member : object ∈ objects) :
    place object objects = some (objects.idxOf object) :=
  if_pos member

theorem place_of_not_mem (missing : object ∉ objects) : place object objects = none :=
  if_neg missing

theorem place_snoc_self (missing : object ∉ objects) :
    place object (objects ++ [object]) = some objects.length := by
  rw [place_of_mem (List.mem_append_right _ List.mem_cons_self), List.idxOf_append_of_notMem missing,
    List.idxOf_cons_self, Nat.add_zero]

theorem place_snoc_of_ne {other : Object} (different : other ≠ object) :
    place other (objects ++ [object]) = place other objects := by
  unfold place
  by_cases member : other ∈ objects
  · rw [if_pos (List.mem_append_left _ member), if_pos member, List.idxOf_append_of_mem member]
  · rw [if_neg member, if_neg]
    simp [member, different]

/-- A plan that has one more object. -/
theorem Plan.Describes.snoc (describes : plan.Describes target objects)
    (missing : object.isShared → object ∉ objects)
    (places : ∀ other, other.isShared →
      plan'.place other = if other = object then some objects.length else plan.place other)
    (current : plan'.currentObjectReference = plan.currentObjectReference + 1)
    (bytes : plan'.byteCount = target.size (plan.byteCount + object.byteCount target))
    (references :
      plan'.objectReferenceCount = target.size (plan.objectReferenceCount + object.referenceCount)) :
    plan'.Describes target (objects ++ [object]) where
  places other shared := by
    rw [places other shared]
    split
    · rename_i same
      rw [same, place_snoc_self (missing (same ▸ shared))]
    · rw [describes.places other shared, place_snoc_of_ne ‹_›]
  current := by rw [current, describes.current, List.length_append, List.length_singleton]
  bytes := by rw [bytes, describes.bytes, Target.size_add, byteCount_snoc]
  references := by rw [references, describes.references, Target.size_add, referenceCount_snoc]

theorem Plan.Describes.snocUnique (describes : plan.Describes target objects)
    (unshared : object.isShared = false) (places : ∀ other, plan'.place other = plan.place other)
    (current : plan'.currentObjectReference = plan.currentObjectReference + 1)
    (bytes : plan'.byteCount = target.size (plan.byteCount + object.byteCount target))
    (references :
      plan'.objectReferenceCount = target.size (plan.objectReferenceCount + object.referenceCount)) :
    plan'.Describes target (objects ++ [object]) := by
  apply describes.snoc _ _ current bytes references
  · intro shared
    rw [unshared] at shared
    cases shared
  · intro other shared
    have different : other ≠ object := by
      intro same
      rw [same, unshared] at shared
      cases shared
    rw [places, if_neg different]

theorem Plan.Describes.sameCount (describes : plan.Describes target objects) :
    plan.objectReferenceCount = target.size (plan.objectReferenceCount + 0) := by
  rw [describes.references, Nat.add_zero, Target.size_size]

/-- A plan with another count of elements or with the same objects. -/
theorem Plan.Describes.of_same (describes : plan.Describes target objects)
    (places : ∀ other, plan'.place other = plan.place other)
    (current : plan'.currentObjectReference = plan.currentObjectReference)
    (bytes : plan'.byteCount = plan.byteCount)
    (references : plan'.objectReferenceCount = plan.objectReferenceCount) :
    plan'.Describes target objects where
  places other shared := (places other).trans (describes.places other shared)
  current := current.trans describes.current
  bytes := bytes.trans describes.bytes
  references := references.trans describes.references

/-- Whether the plan has a shared object and where. -/
theorem Plan.Describes.place_cases (describes : plan.Describes target objects) (object : Object)
    (shared : object.isShared) :
    (object ∈ objects ∧ plan.place object = some (objects.idxOf object)) ∨
      (object ∉ objects ∧ plan.place object = none) := by
  rw [describes.places object shared]
  by_cases member : object ∈ objects
  · exact .inl ⟨member, place_of_mem member⟩
  · exact .inr ⟨member, place_of_not_mem member⟩

end

/-- A plan after one more element, with its reference. -/
structure Plan.Continues (target : Target) (plan : Plan) (next : Nat × Plan) (enlisted : Enlisted) :
    Prop where
  reference : next.1 = enlisted.reference
  describes : next.2.Describes target enlisted.objects
  element : next.2.currentAggregateSize = plan.currentAggregateSize + 1

section
variable {target : Target} {plan : Plan} {objects : List Object}

theorem continues_of_mem {object : Object} {next : Nat × Plan} (member : object ∈ objects)
    (reference : next.1 = objects.idxOf object) (describes : next.2.Describes target objects)
    (element : next.2.currentAggregateSize = plan.currentAggregateSize + 1) :
    plan.Continues target next (enlistShared object objects) where
  reference := by rw [enlistShared, share, if_pos member, reference]
  describes := by rwa [enlistShared, share, if_pos member]
  element

theorem continues_of_not_mem {object : Object} {next : Nat × Plan} (missing : object ∉ objects)
    (reference : next.1 = objects.length)
    (describes : next.2.Describes target (objects ++ [object]))
    (element : next.2.currentAggregateSize = plan.currentAggregateSize + 1) :
    plan.Continues target next (enlistShared object objects) where
  reference := by
    rw [enlistShared, share, if_neg missing, reference]
    exact (List.idxOf_append_of_notMem missing).trans (by simp) |>.symm
  describes := by rwa [enlistShared, share, if_neg missing]
  element

theorem Plan.Describes.addElement (describes : plan.Describes target objects) :
    plan.addElement.Describes target objects :=
  describes.of_same (fun other => by cases other <;> rfl) rfl rfl rfl

theorem writeBooleanTrue_continues (describes : plan.Describes target objects) :
    plan.Continues target (plan.writeBooleanTrue target) (enlistShared .booleanTrue objects) := by
  rcases describes.place_cases .booleanTrue rfl with ⟨member, found⟩ | ⟨missing, found⟩
  all_goals change plan.addElement.booleanTrueObjectReference = _ at found
  all_goals simp only [Plan.writeBooleanTrue, found]
  · exact continues_of_mem member rfl describes.addElement rfl
  · refine continues_of_not_mem missing describes.current ?_ rfl
    refine describes.snoc (fun _ => missing) ?_ rfl rfl describes.sameCount
    intro other _
    cases other <;> simp [Plan.place, describes.current, Plan.addElement, Plan.addObject, Plan.addBytes]

theorem writeInteger_continues (n : Nat) (describes : plan.Describes target objects) :
    plan.Continues target (plan.writeInteger target n) (enlistShared (.integer n) objects) := by
  have known := describes.place_cases (.integer n) rfl
  by_cases zero : n = 0
  · subst zero
    rcases known with ⟨member, found⟩ | ⟨missing, found⟩
    all_goals change plan.addElement.integerZeroObjectReference = _ at found
    all_goals simp only [Plan.writeInteger, found, if_true]
    · exact continues_of_mem member rfl describes.addElement rfl
    · refine continues_of_not_mem missing describes.current ?_ rfl
      refine describes.snoc (fun _ => missing) ?_ rfl rfl describes.sameCount
      intro other _
      cases other <;> simp [Plan.place, describes.current, Plan.addElement, Plan.addObject,
        Plan.addBytes]
      split <;> simp [*]
  · rcases known with ⟨member, found⟩ | ⟨missing, found⟩
    all_goals rw [Plan.place, if_neg zero] at found
    all_goals change plan.addElement.integers n = _ at found
    all_goals simp only [Plan.writeInteger, found, if_neg zero]
    · exact continues_of_mem member rfl describes.addElement rfl
    · refine continues_of_not_mem missing describes.current ?_ rfl
      refine describes.snoc (fun _ => missing) ?_ rfl rfl describes.sameCount
      intro other _
      cases other <;> simp [Plan.place, describes.current, Plan.addElement, Plan.addObject,
        Plan.addBytes, Function.update_apply]
      grind

theorem writeStringObject_eq (string : Text) :
    plan.writeStringObject target string = plan.addBytes target (stringByteCount target string) := by
  unfold Plan.writeStringObject stringByteCount
  cases charactersAreAllASCII string <;> simp [Plan.addBytes, Nat.add_assoc]

theorem writeString_continues (s : Text) (describes : plan.Describes target objects) :
    plan.Continues target (plan.writeString target s) (enlistShared (.string s) objects) := by
  rcases describes.place_cases (.string s) rfl with ⟨member, found⟩ | ⟨missing, found⟩
  all_goals change plan.addElement.strings s = _ at found
  all_goals simp only [Plan.writeString, found, writeStringObject_eq]
  · exact continues_of_mem member rfl describes.addElement rfl
  · refine continues_of_not_mem missing describes.current ?_ rfl
    refine describes.snoc (fun _ => missing) ?_ rfl rfl describes.sameCount
    intro other _
    cases other <;> simp [Plan.place, describes.current, Plan.addElement, Plan.addObject,
      Plan.addBytes, Function.update_apply]

theorem writeUniqueString_continues (s : Text) (describes : plan.Describes target objects) :
    plan.Continues target (plan.writeUniqueString target s)
      (enlistUnique (.uniqueString s) objects) where
  reference := describes.current
  describes := by
    rw [Plan.writeUniqueString, writeStringObject_eq]
    apply describes.snocUnique rfl _ rfl rfl describes.sameCount
    intro other
    cases other <;> rfl
  element := by
    rw [Plan.writeUniqueString, writeStringObject_eq]
    rfl

theorem writeUniqueCString_continues (s : List Byte) (describes : plan.Describes target objects) :
    plan.Continues target (plan.writeUniqueCString target s)
      (enlistUnique (.uniqueCString s) objects) where
  reference := describes.current
  describes := by
    apply describes.snocUnique rfl _ rfl rfl describes.sameCount
    intro other
    cases other <;> rfl
  element := rfl

/-! The integers of an array. The plan already has the array then. -/

theorem writeInteger_integerArrays (n : Nat) (table : List Nat → Option Nat) :
    ({ plan with integerArrays := table }.writeInteger target n).2 =
      { (plan.writeInteger target n).2 with integerArrays := table } := by
  unfold Plan.writeInteger
  split
  · cases found : plan.integerZeroObjectReference <;>
      simp only [Plan.addElement, Plan.addObject, Plan.addBytes, found]
  · cases found : plan.integers n <;>
      simp only [Plan.addElement, Plan.addObject, Plan.addBytes, found]

theorem foldl_writeInteger (integers : List Nat) (table : List Nat → Option Nat)
    (describes : plan.Describes target objects) :
    ∃ next : Plan, integers.foldl (fun plan n => (plan.writeInteger target n).2)
        { plan with integerArrays := table } = { next with integerArrays := table } ∧
      next.Describes target (shareIntegers integers objects) ∧
      next.integerArrays = plan.integerArrays := by
  induction integers generalizing plan objects with
  | nil => exact ⟨plan, rfl, describes, rfl⟩
  | cons n integers ih =>
    obtain ⟨next, same, described, kept⟩ := ih (writeInteger_continues n describes).describes
    refine ⟨next, ?_, described, ?_⟩
    · rw [List.foldl_cons, writeInteger_integerArrays, same]
    · rw [kept, ← congrArg Plan.integerArrays (writeInteger_integerArrays n plan.integerArrays)]

theorem shareIntegers_of_mem {integers : List Nat}
    (members : ∀ n ∈ integers, .integer n ∈ objects) : shareIntegers integers objects = objects := by
  induction integers with
  | nil => rfl
  | cons n integers ih =>
    rw [List.forall_mem_cons] at members
    exact (congrArg (shareIntegers integers) (if_pos members.1)).trans (ih members.2)

theorem mem_shareIntegers_iff (integers : List Nat) {object : Object}
    (other : ∀ n, object ≠ .integer n) :
    object ∈ shareIntegers integers objects ↔ object ∈ objects := by
  induction integers generalizing objects with
  | nil => rfl
  | cons n integers ih =>
    change object ∈ shareIntegers integers (share (.integer n) objects) ↔ _
    rw [ih, mem_share_iff, or_iff_left (other n)]

theorem writeIntegerArray_continues {integers : List Nat} (some_ : integers ≠ [])
    (listed : Listed objects) (describes : plan.Describes target objects) :
    ∃ next, plan.writeIntegerArray target integers = some next ∧
      plan.Continues target next
        (enlistShared (.integerArray integers) (shareIntegers integers objects)) := by
  have length : ¬integers.length = 0 := fun none_ => some_ (List.length_eq_zero_iff.mp none_)
  rcases describes.place_cases (.integerArray integers) rfl with
    ⟨member, found⟩ | ⟨missing, found⟩
  all_goals change plan.addElement.integerArrays integers = _ at found
  all_goals simp only [Plan.writeIntegerArray, if_neg length, found]
  · rw [shareIntegers_of_mem (listed.integers member)]
    exact ⟨_, rfl, continues_of_mem member rfl describes.addElement rfl⟩
  · have missing' := (mem_shareIntegers_iff integers fun _ => Object.noConfusion).not.mpr missing
    obtain ⟨next, same, described, kept⟩ := foldl_writeInteger integers
      (Function.update plan.addElement.integerArrays integers (some 0)) describes.addElement
    rw [same]
    simp only [Plan.writeArrayObject, if_neg length, Function.update_idem]
    refine ⟨_, rfl, continues_of_not_mem missing' described.current ?_ rfl⟩
    refine described.snoc (fun _ => missing') ?_ rfl rfl rfl
    intro other _
    cases other <;> simp [Plan.place, described.current, Plan.addObject, Plan.addBytes, kept,
      Function.update_apply]

/-- What the plan is once a value or some values were written. -/
structure Plan.Planned (target : Target) (plan : Plan) (objects : List Object) (elements : Nat)
    (next : Plan) : Prop where
  describes : next.Describes target objects
  elements : next.currentAggregateSize = plan.currentAggregateSize + elements

theorem single_planned {written : Option (Nat × Plan)} {next : Nat × Plan} {enlisted : Enlisted}
    (same : written = some next) (continues : plan.Continues target next enlisted)
    (trace : enlisted.trace = [enlisted.reference]) :
    ∃ next, single written = some (enlisted.trace, next) ∧
      plan.Planned target enlisted.objects 1 next := by
  refine ⟨next.2, ?_, continues.describes, continues.element⟩
  rw [same, trace, ← continues.reference]
  rfl

theorem writeArrayEnd_planned {references : List Nat} (some_ : references ≠ []) (saved : Nat)
    (describes : plan.Describes target objects)
    (count : plan.currentAggregateSize = references.length) :
    ∃ next : Plan, plan.writeArrayEnd target saved = some (objects.length, next) ∧
      next.Describes target (objects ++ [.array references]) ∧
      next.currentAggregateSize = saved + 1 := by
  have length : ¬references.length = 0 := fun none_ => some_ (List.length_eq_zero_iff.mp none_)
  simp only [Plan.writeArrayEnd, Plan.writeArrayObject, count, if_neg length, describes.current]
  refine ⟨_, rfl, ?_, rfl⟩
  apply describes.snocUnique rfl _ rfl rfl rfl
  intro other
  cases other <;> rfl

theorem writeDictionaryEnd_planned {references : List Nat} (some_ : references ≠ [])
    (even : references.length % 2 = 0) (saved : Nat) (describes : plan.Describes target objects)
    (count : plan.currentAggregateSize = references.length) :
    ∃ next : Plan, plan.writeDictionaryEnd target saved = some (objects.length, next) ∧
      next.Describes target (objects ++ [.dictionary references]) ∧
      next.currentAggregateSize = saved + 1 := by
  have length : ¬references.length = 0 := fun none_ => some_ (List.length_eq_zero_iff.mp none_)
  simp only [Plan.writeDictionaryEnd, Plan.writeDictionaryObject, count, if_neg length,
    describes.current, even, ne_eq, not_true, if_false]
  refine ⟨_, rfl, ?_, rfl⟩
  apply describes.snocUnique rfl _ rfl rfl rfl
  intro other
  cases other <;> rfl

end

mutual

theorem Value.write_planned (target : Target) : ∀ (value : Value) {objects : List Object}
    {plan : Plan}, value.WellFormed → Listed objects → plan.Describes target objects →
    ∃ next, value.write (planStream target) plan = some ((value.enlist objects).trace, next) ∧
      plan.Planned target (value.enlist objects).objects 1 next
  | .booleanTrue, _, _, _, _, describes =>
    single_planned rfl (writeBooleanTrue_continues describes) rfl
  | .integer n, _, _, _, _, describes =>
    single_planned rfl (writeInteger_continues n describes) rfl
  | .string s, _, _, _, _, describes =>
    single_planned rfl (writeString_continues s describes) rfl
  | .integerArray integers, _, _, ⟨some_, _⟩, listed, describes => by
    obtain ⟨next, same, continues⟩ := writeIntegerArray_continues some_ listed describes
    exact single_planned same continues rfl
  | .uniqueString s, _, _, _, _, describes =>
    single_planned rfl (writeUniqueString_continues s describes) rfl
  | .uniqueCString s, _, _, _, _, describes =>
    single_planned rfl (writeUniqueCString_continues s describes) rfl
  | .array items, objects, plan, ⟨some_, wellFormed⟩, listed, describes => by
    obtain ⟨next, same, planned⟩ := writeAll_planned target items wellFormed listed
      (describes.of_same (fun other => by cases other <;> rfl) rfl rfl rfl :
        plan.writeAggregateStart.2.Describes target objects)
    obtain ⟨last, same', described, element⟩ := writeArrayEnd_planned
      (references_ne_nil some_ objects) plan.writeAggregateStart.1 planned.describes
      (planned.elements.trans (by rw [length_references]; exact Nat.zero_add _))
    refine ⟨last, ?_, described, element⟩
    simp only [Value.write, planStream] at same ⊢
    simp only [same, Option.bind_eq_bind, Option.bind_some, same']
    rfl
  | .dictionary items, objects, plan, ⟨some_, even, wellFormed⟩, listed, describes => by
    obtain ⟨next, same, planned⟩ := writeAll_planned target items wellFormed listed
      (describes.of_same (fun other => by cases other <;> rfl) rfl rfl rfl :
        plan.writeAggregateStart.2.Describes target objects)
    obtain ⟨last, same', described, element⟩ := writeDictionaryEnd_planned
      (references_ne_nil some_ objects) ((length_references items objects).symm ▸ even)
      plan.writeAggregateStart.1 planned.describes
      (planned.elements.trans (by rw [length_references]; exact Nat.zero_add _))
    refine ⟨last, ?_, described, element⟩
    simp only [Value.write, planStream] at same ⊢
    simp only [same, Option.bind_eq_bind, Option.bind_some, same']
    rfl

theorem writeAll_planned (target : Target) : ∀ (items : List Value) {objects : List Object}
    {plan : Plan}, AllWellFormed items → Listed objects → plan.Describes target objects →
    ∃ next, writeAll (planStream target) items plan =
        some ((enlistAll items objects).trace, next) ∧
      plan.Planned target (enlistAll items objects).objects items.length next
  | [], _, plan, _, _, describes => ⟨plan, rfl, describes, rfl⟩
  | item :: items, objects, plan, ⟨wellFormed, rest⟩, listed, describes => by
    obtain ⟨next, same, planned⟩ := Value.write_planned target item wellFormed listed describes
    obtain ⟨last, same', planned'⟩ := writeAll_planned target items rest
      (listed.enlist item wellFormed) planned.describes
    refine ⟨last, ?_, planned'.describes, ?_⟩
    · simp only [writeAll, same, same', Option.bind_eq_bind, Option.bind_some]
      rfl
    · rw [planned'.elements, planned.elements, List.length_cons]
      omega

end

/-- The plan of a client, which assigns the places of all objects. -/
theorem binaryPropertyListPlan_eq (target : Target) {client : Value}
    (wellFormed : client.WellFormed) :
    ∃ plan, binaryPropertyListPlan target client = some ((client.enlist []).trace, plan) ∧
      plan.Describes target client.objects := by
  have start : ({} : Plan).Describes target [] := by
    constructor <;> try rfl
    intro object _
    cases object <;> simp [Plan.place, place]
  obtain ⟨plan, same, planned⟩ := client.write_planned target wellFormed .nil start
  refine ⟨plan, ?_, planned.describes⟩
  simp only [binaryPropertyListPlan, same, Option.bind_eq_bind, Option.bind_some,
    planned.elements, if_true]

end WkcBrowser.PropertyList
