import WkcBrowser.Lib.Provided
import WkcBrowser.Lib.Writer
import WkcBrowser.PropertyList.Planning

/-! What the buffer of a serializer holds: the objects behind the header, the references of unfinished
aggregates in front of the offset table, and the offsets of the objects. A call that appends something
succeeds exactly when there is room for it. -/

namespace WkcBrowser.PropertyList

open Wtf Lib.ByteOrder Lib.Provided Lib.Window

/-- All objects of a list and the sizes that its buffer has. -/
structure Frame where
  target : Target
  objects : List Object
  layout : Layout

namespace Frame
variable (frame : Frame)

abbrev referenceSize : Nat := frame.layout.objectReferenceSize
abbrev tableStart : Nat := frame.layout.offsetTableStart

def references (places : List Nat) : List Byte :=
  places.flatMap (bigEndian frame.referenceSize)

def bytes : Object → List Byte
  | .booleanTrue => [booleanTrueMarkerByte]
  | .integer n => integerBytes frame.target n
  | .string s | .uniqueString s => stringBytes frame.target s
  | .uniqueCString s => cStringBytes frame.target s
  | .integerArray integers =>
    markerBytes frame.target arrayMarkerByte arrayWithSeparateLengthMarkerByte integers.length ++
      frame.references (integers.map fun n => frame.objects.idxOf (.integer n))
  | .array places =>
    markerBytes frame.target arrayMarkerByte arrayWithSeparateLengthMarkerByte places.length ++
      frame.references places
  | .dictionary places =>
    markerBytes frame.target dictionaryMarkerByte dictionaryWithSeparateLengthMarkerByte
      (places.length / 2) ++ frame.references places

def written (objects : List Object) : List Byte :=
  objects.flatMap frame.bytes

/-- Where the objects start when the first of them does at an offset. -/
def offsets : List Object → Nat → List Nat
  | [], _ => []
  | object :: objects, start => start :: offsets objects (start + (frame.bytes object).length)

def table (offsets : List Nat) : List Byte :=
  offsets.flatMap (bigEndian frame.layout.offsetSize)

/-- The references of an unfinished aggregate, the latest one first. -/
def stack (pending : List Nat) : List Byte :=
  pending.flatMap fun reference => (bigEndian frame.referenceSize reference).reverse

variable {frame}

@[simp] theorem length_references (places : List Nat) :
    (frame.references places).length = frame.referenceSize * places.length := by
  simp [references, List.length_flatMap, Nat.mul_comm]

@[simp] theorem length_stack (pending : List Nat) :
    (frame.stack pending).length = frame.referenceSize * pending.length := by
  simp [stack, List.length_flatMap, Nat.mul_comm]

@[simp] theorem length_table (offsets : List Nat) :
    (frame.table offsets).length = offsets.length * frame.layout.offsetSize := by
  simp [table, List.length_flatMap]

theorem table_snoc (offsets : List Nat) (offset : Nat) : frame.table (offsets ++ [offset]) =
    frame.table offsets ++ bigEndian frame.layout.offsetSize offset := by
  simp [table]

theorem stack_cons (reference : Nat) (pending : List Nat) : frame.stack (reference :: pending) =
    (bigEndian frame.referenceSize reference).reverse ++ frame.stack pending :=
  rfl

theorem reverse_stack (pending : List Nat) :
    (frame.stack pending).reverse = frame.references pending.reverse := by
  simp [stack, references, List.reverse_flatMap, Function.comp_def]

theorem written_snoc (objects : List Object) (object : Object) :
    frame.written (objects ++ [object]) = frame.written objects ++ frame.bytes object := by
  simp [written]

theorem length_offsets (objects : List Object) (start : Nat) :
    (frame.offsets objects start).length = objects.length := by
  induction objects generalizing start with
  | nil => rfl
  | cons object objects ih => exact congrArg (· + 1) (ih _)

theorem offsets_snoc (objects : List Object) (object : Object) (start : Nat) :
    frame.offsets (objects ++ [object]) start =
      frame.offsets objects start ++ [start + (frame.written objects).length] := by
  induction objects generalizing start with
  | nil => rfl
  | cons first objects ih =>
    have whole : (frame.written (first :: objects)).length =
        (frame.bytes first).length + (frame.written objects).length := by
      rw [written, List.flatMap_cons, List.length_append, written]
    rw [List.cons_append, offsets, ih, offsets, List.cons_append, whole, Nat.add_assoc]

end Frame

section
variable {target : Target}

theorem length_integerBytes (n : Nat) :
    (integerBytes target n).length = integerByteCount target n := by
  unfold integerBytes integerByteCount
  cases target <;> grind [length_bigEndian]

theorem length_markerBytes (marker separate : Byte) (length : Nat) :
    (markerBytes target marker separate length).length = markerPlusLengthByteCount target length := by
  unfold markerBytes markerPlusLengthByteCount
  split
  · rfl
  · rw [List.length_cons, length_integerBytes, Nat.add_comm]

theorem markerBytes_ne_nil (marker separate : Byte) (length : Nat) :
    markerBytes target marker separate length ≠ [] := by
  unfold markerBytes
  split <;> exact List.cons_ne_nil _ _

theorem length_stringBytes (s : Text) :
    (stringBytes target s).length = stringByteCount target s := by
  unfold stringBytes stringByteCount
  split
  · rw [List.length_append, length_markerBytes, List.length_map, Nat.add_zero]
  · rw [List.length_append, length_markerBytes, List.length_flatMap]
    simp [Nat.add_assoc, Nat.mul_two]

theorem length_cStringBytes (s : List Byte) : (cStringBytes target s).length =
    markerPlusLengthByteCount target (unsigned s.length) + unsigned s.length := by
  rw [cStringBytes, List.length_append, length_markerBytes, List.length_take,
    Nat.min_eq_left (show unsigned s.length ≤ s.length from Nat.mod_le ..)]

end

/-- The bytes of an object are those that were planned. -/
theorem Frame.length_bytes {frame : Frame} (object : Object) : (frame.bytes object).length =
    object.byteCount frame.target + frame.referenceSize * object.referenceCount := by
  cases object with
  | booleanTrue => rfl
  | integer n => exact length_integerBytes n
  | string s | uniqueString s => exact length_stringBytes s
  | uniqueCString s => exact length_cStringBytes s
  | integerArray integers | array places | dictionary places =>
    rw [bytes, List.length_append, length_markerBytes, length_references]
    simp [Object.byteCount, Object.referenceCount]

theorem Frame.length_written {frame : Frame} (objects : List Object) :
    (frame.written objects).length =
      byteCount frame.target objects + frame.referenceSize * referenceCount objects := by
  induction objects with
  | nil => rfl
  | cons object objects ih =>
    rw [written, List.flatMap_cons, List.length_append, length_bytes, ← written, ih]
    simp only [byteCount, referenceCount, List.map_cons, List.sum_cons, Nat.mul_add]
    omega

/-- The constants of a serializer. -/
structure Frame.Sizes (frame : Frame) (s : Serializer) : Prop where
  plan : s.plan.Describes frame.target frame.objects
  objectReferenceSize : s.objectReferenceSize = frame.referenceSize
  offsetTableStart : s.offsetTableStart = frame.tableStart
  offsetSize : s.offsetSize = frame.layout.offsetSize
  length : s.buffer.length = frame.layout.bufferSize

/-- A serializer that has written some bytes of objects, the offsets of these and the references of
aggregates that are not finished. -/
structure Frame.Shape (frame : Frame) (s : Serializer) (text : List Byte) (offsets pending : List Nat) :
    Prop where
  sizes : frame.Sizes s
  current : s.currentObjectReference = offsets.length
  currentByte : s.currentByte = headerSize + text.length
  aggregate :
    s.currentAggregateBufferByte + frame.referenceSize * pending.length = frame.tableStart
  text : Holds s.buffer headerSize text
  offsets : Holds s.buffer frame.tableStart (frame.table offsets)
  pending : Holds s.buffer s.currentAggregateBufferByte (frame.stack pending)

section
variable {frame : Frame} {s s' : Serializer} {text : List Byte} {offsets pending : List Nat}

theorem Frame.Sizes.of_same (sizes : frame.Sizes s) (plan : s'.plan = s.plan)
    (objectReferenceSize : s'.objectReferenceSize = s.objectReferenceSize)
    (offsetTableStart : s'.offsetTableStart = s.offsetTableStart)
    (offsetSize : s'.offsetSize = s.offsetSize) (length : s'.buffer.length = s.buffer.length) :
    frame.Sizes s' where
  plan := plan ▸ sizes.plan
  objectReferenceSize := objectReferenceSize.trans sizes.objectReferenceSize
  offsetTableStart := offsetTableStart.trans sizes.offsetTableStart
  offsetSize := offsetSize.trans sizes.offsetSize
  length := length.trans sizes.length

theorem put_eq (destination : Nat) (bytes : List Byte) : s.put destination bytes =
    if destination + bytes.length ≤ s.buffer.length then
      some { s with buffer := overwrite s.buffer destination bytes }
    else none :=
  rfl

/-- An entry of the offset table does not touch the objects as long as these stay in front of it. -/
theorem startObject_provided (shape : frame.Shape s text offsets pending)
    (apart : text = [] ∨ headerSize + text.length ≤ frame.tableStart) :
    Provided (frame.tableStart + (offsets.length + 1) * frame.layout.offsetSize ≤
        frame.layout.bufferSize)
      s.startObject
      fun s => frame.Shape s text (offsets ++ [headerSize + text.length]) pending := by
  have entry : (bigEndian s.offsetSize s.currentByte).length = frame.layout.offsetSize := by
    rw [length_bigEndian, shape.sizes.offsetSize]
  have tabled : (frame.table offsets).length = _ := Frame.length_table offsets
  have same : s.offsetTableStart + s.currentObjectReference * s.offsetSize =
      frame.tableStart + (frame.table offsets).length := by
    rw [shape.sizes.offsetTableStart, shape.current, shape.sizes.offsetSize, tabled]
  have stacked := shape.aggregate
  unfold Serializer.startObject
  simp only [put_eq, same, entry, shape.sizes.length]
  rw [Nat.add_mul, Nat.one_mul, ← tabled, ← Nat.add_assoc]
  apply provided_ite
  intro room
  have fits : frame.tableStart + (frame.table offsets).length +
      (bigEndian s.offsetSize s.currentByte).length ≤ s.buffer.length := by
    rwa [entry, shape.sizes.length]
  exact {
    sizes := shape.sizes.of_same rfl rfl rfl rfl (length_overwrite fits)
    current := by rw [shape.current, List.length_append, List.length_singleton]
    currentByte := shape.currentByte
    aggregate := shape.aggregate
    text := by
      rcases apart with rfl | apart
      · exact holds_nil
      · exact shape.text.overwrite fits (.inl (by omega))
    offsets := by
      rw [Frame.table_snoc, holds_append]
      constructor
      · exact shape.offsets.overwrite fits (.inl (Nat.le_refl _))
      · rw [← shape.sizes.offsetSize, ← shape.currentByte]
        exact holds_overwrite fits
    pending := by
      apply shape.pending.overwrite fits
      rw [Frame.length_stack]
      omega }

theorem appendByte_provided (shape : frame.Shape s text offsets pending)
    (within : frame.tableStart ≤ frame.layout.bufferSize) (byte : Byte) :
    Provided (headerSize + (text ++ [byte]).length + frame.referenceSize * pending.length ≤
        frame.tableStart)
      (s.appendByte byte) fun s => frame.Shape s (text ++ [byte]) offsets pending := by
  have stacked := shape.aggregate
  have at_ := shape.currentByte
  unfold Serializer.appendByte Serializer.inOrder
  rw [List.length_append, List.length_singleton]
  by_cases room : s.currentByte + 1 ≤ s.currentAggregateBufferByte
  · have fits : s.currentByte + [byte].length ≤ s.buffer.length := by
      rw [shape.sizes.length, List.length_singleton]
      omega
    simp only [put_eq, if_pos fits, Option.bind_eq_bind, Option.bind_some, if_pos room]
    apply provided_some (by omega)
    exact {
      sizes := shape.sizes.of_same rfl rfl rfl rfl (length_overwrite fits)
      current := shape.current
      currentByte := by rw [shape.currentByte, List.length_append, List.length_singleton, Nat.add_assoc]
      aggregate := shape.aggregate
      text := by
        rw [holds_append, ← shape.currentByte]
        exact ⟨shape.text.overwrite fits (.inl (by omega)), holds_overwrite fits⟩
      offsets := shape.offsets.overwrite fits (.inr (by rw [List.length_singleton]; omega))
      pending := shape.pending.overwrite fits (.inr room) }
  · simp only [put_eq]
    split
    · simp only [Option.bind_eq_bind, Option.bind_some, if_neg room]
      exact provided_none (by omega)
    · exact provided_none (by omega)

/-- Bytes that are appended one after the other need the room that the last one needs. -/
theorem appendBytes_provided (bytes : List Byte) (shape : frame.Shape s text offsets pending)
    (within : frame.tableStart ≤ frame.layout.bufferSize)
    (enough : bytes = [] →
      headerSize + text.length + frame.referenceSize * pending.length ≤ frame.tableStart) :
    Provided (headerSize + (text ++ bytes).length + frame.referenceSize * pending.length ≤
        frame.tableStart)
      (Serializer.appendBytes bytes s) fun s => frame.Shape s (text ++ bytes) offsets pending := by
  induction bytes generalizing s text with
  | nil =>
    rw [List.append_nil]
    exact provided_some (enough rfl) shape
  | cons byte bytes ih =>
    rw [List.append_cons]
    apply (appendByte_provided shape within byte).bind
    · intro room
      rw [List.length_append] at room
      omega
    · intro s room shape
      exact ih shape fun _ => room

/-- What is added to the aggregate buffer lies between the objects and the references there. -/
theorem addAggregateObjectReference_provided (shape : frame.Shape s text offsets pending)
    (reference : Nat) :
    Provided (headerSize + text.length + frame.referenceSize * (pending.length + 1) ≤
        frame.tableStart ∧ s.currentAggregateBufferByte ≤ frame.layout.bufferSize)
      (s.addAggregateObjectReference reference)
      fun s => frame.Shape s text offsets (reference :: pending) := by
  have stacked := shape.aggregate
  have at_ := shape.currentByte
  have size := shape.sizes.objectReferenceSize
  have entry : (bigEndian frame.referenceSize reference).reverse.length = frame.referenceSize := by
    rw [List.length_reverse, length_bigEndian]
  unfold Serializer.addAggregateObjectReference Serializer.inOrder
  rw [Nat.mul_add, Nat.mul_one]
  simp only [size]
  split
  · exact provided_none (by omega)
  · rename_i large
    by_cases fits : s.currentAggregateBufferByte - frame.referenceSize +
        (bigEndian frame.referenceSize reference).reverse.length ≤ s.buffer.length
    · simp only [put_eq, if_pos fits, Option.bind_eq_bind, Option.bind_some]
      have inside := fits
      rw [entry, shape.sizes.length] at inside
      split
      · rename_i room
        apply provided_some (by omega)
        exact {
          sizes := shape.sizes.of_same rfl rfl rfl rfl (length_overwrite fits)
          current := shape.current
          currentByte := shape.currentByte
          aggregate := by
            rw [List.length_cons, Nat.mul_add, Nat.mul_one]
            change s.currentAggregateBufferByte - frame.referenceSize + _ = _
            omega
          text := shape.text.overwrite fits (.inl (by omega))
          offsets := shape.offsets.overwrite fits (.inr (by rw [entry]; omega))
          pending := by
            rw [Frame.stack_cons, holds_append, entry]
            constructor
            · exact holds_overwrite fits
            · change Holds _ (s.currentAggregateBufferByte - frame.referenceSize + _) _
              rw [Nat.sub_add_cancel (Nat.le_of_not_lt large)]
              exact shape.pending.overwrite fits (.inr (by rw [entry]; omega)) }
      · exact provided_none (by omega)
    · simp only [put_eq, if_neg fits]
      rw [entry, shape.sizes.length] at fits
      exact provided_none (by omega)

/-- The references of an aggregate leave the aggregate buffer and become bytes of its object. They may
be written over the place where they were, never over those of other aggregates. -/
theorem moveAggregate_provided {items : List Nat}
    (shape : frame.Shape s text offsets (items ++ pending))
    (within : frame.tableStart ≤ frame.layout.bufferSize) {saved : Nat}
    (start : saved + frame.referenceSize * pending.length = frame.tableStart) :
    Provided (headerSize + (text ++ frame.references items.reverse).length +
        frame.referenceSize * pending.length ≤ frame.tableStart)
      (do
        let s ← { s with currentAggregateBufferByte := saved }.inOrder
        let s ← s.moveAggregate (frame.referenceSize * items.length)
        { s with currentByte := s.currentByte + frame.referenceSize * items.length }.inOrder)
      fun s => frame.Shape s (text ++ frame.references items.reverse) offsets pending := by
  have stacked := shape.aggregate
  have at_ := shape.currentByte
  rw [List.length_append, Nat.mul_add] at stacked
  have source : saved - frame.referenceSize * items.length = s.currentAggregateBufferByte := by
    omega
  have held := shape.pending
  rw [Frame.stack, List.flatMap_append, holds_append] at held
  obtain ⟨top, rest⟩ := held
  have moved : ((s.buffer.drop s.currentAggregateBufferByte).take
      (frame.referenceSize * items.length)).reverse = frame.references items.reverse := by
    rw [← Frame.reverse_stack, ← Frame.length_stack]
    exact congrArg List.reverse top.take_drop
  have count : (frame.references items.reverse).length = frame.referenceSize * items.length := by
    rw [Frame.length_references, List.length_reverse]
  unfold Serializer.moveAggregate Serializer.inOrder
  rw [List.length_append, count]
  simp only [put_eq]
  by_cases room : headerSize + (text.length + frame.referenceSize * items.length) +
      frame.referenceSize * pending.length ≤ frame.tableStart
  · have fits : s.currentByte + (frame.references items.reverse).length ≤ s.buffer.length := by
      rw [count, shape.sizes.length]
      omega
    have first : s.currentByte ≤ saved := by omega
    have second : s.currentByte + frame.referenceSize * items.length ≤ saved := by omega
    simp only [if_pos first, Option.bind_eq_bind, Option.bind_some, source, moved, if_pos fits,
      if_pos second]
    apply provided_some room
    exact {
      sizes := shape.sizes.of_same rfl rfl rfl rfl (length_overwrite fits)
      current := shape.current
      currentByte := by rw [shape.currentByte, List.length_append, count, Nat.add_assoc]
      aggregate := start
      text := by
        rw [holds_append, ← shape.currentByte]
        exact ⟨shape.text.overwrite fits (.inl (by omega)), holds_overwrite fits⟩
      offsets := shape.offsets.overwrite fits (.inr (by rw [count]; omega))
      pending := by
        have place : s.currentAggregateBufferByte + (frame.stack items).length = saved := by
          rw [Frame.length_stack]
          omega
        change Holds _ (_ + (frame.stack items).length) _ at rest
        rw [place] at rest
        exact rest.overwrite fits (.inr (by rw [count]; exact second)) }
  · have second : ¬s.currentByte + frame.referenceSize * items.length ≤ saved := by omega
    by_cases first : s.currentByte ≤ saved
    · simp only [if_pos first, Option.bind_eq_bind, Option.bind_some, source, moved]
      split
      · simp only [Option.bind_some, if_neg second]
        exact provided_none room
      · exact provided_none room
    · simp only [if_neg first]
      exact provided_none room

/-- An array or a dictionary takes its references from the aggregate buffer. -/
theorem appendAggregate_provided {items : List Nat}
    (shape : frame.Shape s text offsets (items ++ pending)) (some_ : items ≠ [])
    (positive : 0 < frame.referenceSize) {factor : Nat} (even : items.length % factor = 0)
    (inside : headerSize + text.length ≤ frame.tableStart) (marker separate : Byte) {saved : Nat}
    (start : saved + frame.referenceSize * pending.length = frame.tableStart) :
    Provided (headerSize + (text ++ (markerBytes frame.target marker separate
          (items.length / factor) ++ frame.references items.reverse)).length +
        frame.referenceSize * pending.length ≤ frame.tableStart ∧
          frame.tableStart + (offsets.length + 1) * frame.layout.offsetSize ≤
            frame.layout.bufferSize)
      (s.appendAggregate frame.target (frame.referenceSize * factor) marker separate saved)
      fun s => frame.Shape s (text ++ (markerBytes frame.target marker separate
        (items.length / factor) ++ frame.references items.reverse))
        (offsets ++ [headerSize + text.length]) pending := by
  have length : (frame.references items.reverse).length = frame.referenceSize * items.length := by
    rw [Frame.length_references, List.length_reverse]
  unfold Serializer.appendAggregate
  apply (startObject_provided shape (.inr inside)).bind And.right
  intro s entry shape
  have stacked := shape.aggregate
  rw [List.length_append, Nat.mul_add] at stacked
  have count : saved - s.currentAggregateBufferByte = frame.referenceSize * items.length := by
    omega
  have nonzero : ¬frame.referenceSize * items.length = 0 :=
    Nat.mul_ne_zero positive.ne' fun none_ => some_ (List.length_eq_zero_iff.mp none_)
  have within : frame.tableStart ≤ frame.layout.bufferSize := by
    exact Nat.le_trans (Nat.le_add_right ..) entry
  simp only [count, if_neg nonzero, Nat.mul_mod_mul_left, even, Nat.mul_zero, ne_eq, not_true,
    if_false, Nat.mul_div_mul_left _ _ positive]
  rw [← List.append_assoc]
  apply (appendBytes_provided _ shape within _).bind
  · rintro ⟨room, -⟩
    simp only [List.length_append, length, Nat.mul_add] at room ⊢
    omega
  · intro s _ shape
    apply (moveAggregate_provided shape within start).congr
    exact and_iff_left entry
  · exact fun none_ => absurd none_ (markerBytes_ne_nil _ _ _)

end

end WkcBrowser.PropertyList
