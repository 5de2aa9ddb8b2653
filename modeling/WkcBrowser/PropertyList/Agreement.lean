import Mathlib.Data.Nat.Log
import WkcBrowser.PropertyList.Serialization

/-! The two passes agree on every list that is an array or a dictionary and whose size is known exactly.
Other values pass the first pass and fail the second. -/

namespace WkcBrowser.PropertyList

open Wtf Lib.ByteOrder Lib.Provided Lib.Window

/-- How many bytes a number takes. -/
def width (n : Nat) : Nat :=
  Nat.log 256 n + 1

def tableStart (target : Target) (objects : List Object) : Nat :=
  headerSize + byteCount target objects + referenceCount objects * width objects.length

def listSize (target : Target) (objects : List Object) : Nat :=
  tableStart target objects + objects.length * width (tableStart target objects) + trailerSize

/-- The lists that can be serialized. -/
structure Serializable (target : Target) (client : Value) : Prop where
  aggregate : client.isAggregate
  fits : listSize target client.objects < 2 ^ target.sizeBits
  arrays : ∀ integers, .integerArray integers ∈ client.objects → integers.length < 2 ^ 32

theorem bytesNeededFrom_eq {count : Nat} (steps bytes : Nat) (reached : 256 ^ bytes ≤ count)
    (enough : count < 256 ^ (bytes + 1 + steps)) :
    bytesNeededFrom count steps (bytes + 1) = width count := by
  have positive : 0 < count := Nat.lt_of_lt_of_le (Nat.pow_pos (by decide)) reached
  induction steps generalizing bytes with
  | zero => exact congrArg (· + 1) (Nat.log_eq_of_pow_le_of_lt_pow reached enough).symm
  | succ steps ih =>
    have shifted : count >>> (8 * (bytes + 1)) = count / 256 ^ (bytes + 1) := by
      rw [Nat.shiftRight_eq_div_pow, Nat.pow_mul]
    unfold bytesNeededFrom
    rw [shifted]
    split
    · rename_i more
      apply ih
      · exact (Nat.div_ne_zero_iff.mp more).2
      · have same : bytes + 1 + (steps + 1) = bytes + 1 + 1 + steps := by omega
        rwa [same] at enough
    · rename_i done
      have short := (Nat.div_eq_zero_iff.mp (not_not.mp done)).resolve_left
        (Nat.pow_pos (by decide)).ne'
      exact congrArg (· + 1) (Nat.log_eq_of_pow_le_of_lt_pow reached short).symm

theorem bytesNeeded_eq {target : Target} {count : Nat} (positive : 0 < count)
    (short : count < 2 ^ target.sizeBits) : bytesNeeded target count = some (width count) := by
  rw [bytesNeeded, if_neg positive.ne']
  congr 1
  apply bytesNeededFrom_eq _ 0 positive
  cases target <;> exact short

/-- The sizes that the constructor makes of the numbers that the plan could keep. -/
structure Layout.Of (sizes : Layout) (target : Target) (objects : List Object) : Prop where
  reference : bytesNeeded target (target.size objects.length) = some sizes.objectReferenceSize
  tableStart : sizes.offsetTableStart = target.size
    (headerSize + byteCount target objects + referenceCount objects * sizes.objectReferenceSize)
  offset : bytesNeeded target sizes.offsetTableStart = some sizes.offsetSize
  bufferSize : sizes.bufferSize =
    target.size (sizes.offsetTableStart + objects.length * sizes.offsetSize + trailerSize)

section
variable {target : Target} {objects : List Object} {plan : Plan} {sizes : Layout}

theorem layout_iff (describes : plan.Describes target objects) :
    layout target plan = some sizes ↔ sizes.Of target objects := by
  have start : ∀ size, target.size
      (headerSize + plan.byteCount + plan.objectReferenceCount * size) =
        target.size (headerSize + byteCount target objects + referenceCount objects * size) := by
    intro size
    rw [describes.bytes, describes.references]
    simp [Target.size, Nat.add_mod, Nat.mul_mod]
  unfold layout
  simp only [Option.bind_eq_bind, Option.bind_eq_some_iff, describes.current, start,
    Option.some.injEq]
  constructor
  · rintro ⟨reference, found, offset, found', rfl⟩
    exact ⟨found, rfl, found', rfl⟩
  · rintro ⟨reference, start, offset, size⟩
    refine ⟨_, reference, _, start ▸ offset, ?_⟩
    rw [← start, ← size]

theorem length_le_byteCount : objects.length ≤ byteCount target objects := by
  have integer : ∀ n, 1 ≤ integerByteCount target n := by
    intro n
    unfold integerByteCount
    cases target <;> grind
  have marker : ∀ length, 1 ≤ markerPlusLengthByteCount target length := by
    intro length
    unfold markerPlusLengthByteCount
    split <;> omega
  have one : ∀ object : Object, 1 ≤ object.byteCount target := by
    intro object
    cases object <;> grind [Object.byteCount, stringByteCount]
  induction objects with
  | nil => exact Nat.le_refl 0
  | cons object objects ih =>
    have first := one object
    simp only [byteCount, List.map_cons, List.sum_cons, List.length_cons] at ih ⊢
    omega

theorem Target.size_of_lt {n : Nat} (short : n < 2 ^ target.sizeBits) : target.size n = n :=
  Nat.mod_eq_of_lt short

theorem Target.le_size_iff {n less : Nat} (near : n ≤ less + trailerSize) :
    less ≤ target.size n ∧ less ≤ n ↔ n < 2 ^ target.sizeBits ∧ less ≤ n := by
  have large : trailerSize < 2 ^ target.sizeBits := by cases target <;> decide
  constructor
  · rintro ⟨le, le'⟩
    refine ⟨Nat.lt_of_not_le fun beyond => ?_, le'⟩
    have wrapped : target.size n ≤ n - 2 ^ target.sizeBits := by
      rw [Target.size, Nat.mod_eq_sub_mod beyond]
      exact Nat.mod_le ..
    omega
  · rintro ⟨short, le'⟩
    exact ⟨(Target.size_of_lt short).symm ▸ le', le'⟩

/-- The sizes of a list that fits. -/
def exactLayout (target : Target) (objects : List Object) : Layout where
  objectReferenceSize := width objects.length
  offsetTableStart := tableStart target objects
  offsetSize := width (tableStart target objects)
  bufferSize := listSize target objects

theorem exactLayout_of (some_ : objects ≠ [])
    (fits : listSize target objects < 2 ^ target.sizeBits) :
    (exactLayout target objects).Of target objects := by
  have count : objects.length ≤ byteCount target objects := length_le_byteCount
  have bounds : objects.length < 2 ^ target.sizeBits ∧
      tableStart target objects < 2 ^ target.sizeBits := by
    unfold listSize at fits
    have start : byteCount target objects ≤ tableStart target objects := by
      unfold tableStart
      omega
    omega
  constructor
  · rw [Target.size_of_lt bounds.1]
    exact bytesNeeded_eq (List.length_pos_iff.mpr some_) bounds.1
  · exact (Target.size_of_lt bounds.2).symm
  · apply bytesNeeded_eq _ bounds.2
    change 0 < headerSize + byteCount target objects + _
    rw [headerSize]
    omega
  · exact (Target.size_of_lt fits).symm

/-- Buffers with room for all that is written are those of lists that fit. -/
theorem Layout.Of.fits (of : sizes.Of target objects) (some_ : objects ≠ [])
    (below : headerSize + byteCount target objects + referenceCount objects *
      sizes.objectReferenceSize ≤ sizes.offsetTableStart)
    (table : sizes.offsetTableStart + objects.length * sizes.offsetSize ≤ sizes.bufferSize) :
    listSize target objects < 2 ^ target.sizeBits := by
  have count : objects.length ≤ byteCount target objects := length_le_byteCount
  have header : headerSize = 8 := rfl
  have positive : 0 < sizes.offsetTableStart := by omega
  have bounded : sizes.offsetTableStart < 2 ^ target.sizeBits :=
    of.tableStart ▸ Nat.mod_lt _ (Nat.pow_pos (by decide))
  have exact_ := below
  rw [of.tableStart] at exact_
  have short := ((Target.le_size_iff (Nat.le_add_right ..)).mp ⟨exact_, Nat.le_refl _⟩).1
  have start := of.tableStart
  rw [Target.size_of_lt short] at start
  have reference := of.reference
  rw [Target.size_of_lt (by omega),
    bytesNeeded_eq (List.length_pos_iff.mpr some_) (by omega)] at reference
  rw [← Option.some.inj reference] at start
  have offset := of.offset
  change _ = PropertyList.tableStart target objects at start
  rw [bytesNeeded_eq positive bounded] at offset
  have size := of.bufferSize
  rw [← Option.some.inj offset, start] at size table
  rw [size] at table
  exact ((Target.le_size_iff (Nat.le_refl _)).mp ⟨table, Nat.le_add_right ..⟩).1

end

section
variable {frame : Frame} {s : Serializer} {objects : List Object} {object : Object}
  {pending : List Nat}

/-- The last of all objects has no aggregate around it. -/
theorem writeArrayEnd_last {saved : Nat} (start : s.currentObjectReference = objects.length)
    (closed : Provided (frame.Room (objects ++ [object]) pending.length)
      (s.appendAggregate frame.target s.objectReferenceSize arrayMarkerByte
        arrayWithSeparateLengthMarkerByte saved)
      fun s => frame.State s (objects ++ [object]) pending)
    (last : objects.length + 1 = frame.objects.length) :
    Provided (frame.Room (objects ++ [object]) pending.length) (s.writeArrayEnd frame.target saved)
      (frame.Closed objects object pending) := by
  rw [Serializer.writeArrayEnd, start]
  apply closed.bind id
  intro s room state
  rw [state.current, state.shape.sizes.plan.current, List.length_append, List.length_singleton,
    if_neg last.not_lt, if_pos last]
  exact provided_some room ⟨rfl, state⟩

theorem writeDictionaryEnd_last {saved : Nat} (start : s.currentObjectReference = objects.length)
    (closed : Provided (frame.Room (objects ++ [object]) pending.length)
      (s.appendAggregate frame.target (s.objectReferenceSize * 2) dictionaryMarkerByte
        dictionaryWithSeparateLengthMarkerByte saved)
      fun s => frame.State s (objects ++ [object]) pending)
    (last : objects.length + 1 = frame.objects.length) :
    Provided (frame.Room (objects ++ [object]) pending.length)
      (s.writeDictionaryEnd frame.target saved) (frame.Closed objects object pending) := by
  rw [Serializer.writeDictionaryEnd, start]
  apply closed.bind id
  intro s room state
  rw [state.current, state.shape.sizes.plan.current, List.length_append, List.length_singleton,
    if_neg (not_not.mpr last)]
  exact provided_some room ⟨rfl, state⟩

theorem freshSerializer_state {target : Target} {plan : Plan} {sizes : Layout} {objects : List Object}
    (describes : plan.Describes target objects) (fresh : Nat → Byte) :
    Frame.State { target, objects, layout := sizes } (freshSerializer plan sizes fresh) [] [] where
  shape := {
    sizes := {
      plan := describes
      objectReferenceSize := rfl
      offsetTableStart := rfl
      offsetSize := rfl
      length := by rw [freshSerializer, List.length_map, List.length_range] }
    current := rfl
    currentByte := rfl
    aggregate := rfl
    text := holds_nil
    offsets := holds_nil
    pending := holds_nil }
  room none_ := absurd rfl none_

/-- The whole of a list that is an array or a dictionary. -/
theorem root_emitted (positive : 0 < frame.referenceSize) {client : Value}
    (wellFormed : client.WellFormed) (aggregate : client.isAggregate)
    (state : frame.State s [] []) (all : client.objects = frame.objects) :
    Provided (frame.Room client.objects 0) (client.write (serializerStream frame.target) s)
      fun written => written.1 = (client.enlist []).trace ∧
        frame.State written.2 client.objects [] := by
  have last : client.objects.length = frame.objects.length := congrArg List.length all
  have prefix_ : client.objects <+: frame.objects := all ▸ List.prefix_refl _
  cases client with
  | array items =>
    obtain ⟨some_, wellFormed⟩ := wellFormed
    have count := length_references items []
    change (_ ++ [_]).length = _ at last
    rw [List.length_append, List.length_singleton] at last
    have written := writeAll_emitted frame positive items wellFormed state
      ((List.prefix_append ..).trans prefix_) (by omega) fun none_ => absurd none_ some_
    exact aggregate_emitted (.array (enlistAll items []).references) []
      (fun s' => s'.writeArrayEnd frame.target s.currentAggregateBufferByte) written
      (fun room => count ▸ room.items rfl)
      fun s' room state' => writeArrayEnd_last state'.current
        (array_closed positive (references_ne_nil some_ []) (by simpa [count] using room)
          state.shape.aggregate state') last
  | dictionary items =>
    obtain ⟨some_, even, wellFormed⟩ := wellFormed
    have count := length_references items []
    change (_ ++ [_]).length = _ at last
    rw [List.length_append, List.length_singleton] at last
    have written := writeAll_emitted frame positive items wellFormed state
      ((List.prefix_append ..).trans prefix_) (by omega) fun none_ => absurd none_ some_
    exact aggregate_emitted (.dictionary (enlistAll items []).references) []
      (fun s' => s'.writeDictionaryEnd frame.target s.currentAggregateBufferByte) written
      (fun room => count ▸ room.items rfl)
      fun s' room state' => writeDictionaryEnd_last state'.current
        (dictionary_closed positive (references_ne_nil some_ []) (count.symm ▸ even)
          (by simpa [count] using room) state.shape.aggregate state') last
  | booleanTrue | integer | string | integerArray | uniqueString | uniqueCString => cases aggregate

end

def exactFrame (target : Target) (objects : List Object) : Frame where
  target
  objects
  layout := exactLayout target objects

def objectOffsets (target : Target) (objects : List Object) : List Nat :=
  (exactFrame target objects).offsets objects headerSize

/-- The bytes of a list that can be serialized. -/
def listBytes (target : Target) (objects : List Object) : List Byte :=
  ascii "bplist00" ++ (exactFrame target objects).written objects ++
    (exactFrame target objects).table (objectOffsets target objects) ++
    trailer { currentObjectReference := objects.length } (exactLayout target objects)

section
variable {target : Target} {client : Value} {plan : Plan} {sizes : Layout}

theorem bytesNeeded_pos {count bytes : Nat} (found : bytesNeeded target count = some bytes) :
    0 < bytes := by
  have from_ : ∀ steps bytes, bytes ≤ bytesNeededFrom count steps bytes := by
    intro steps
    induction steps with
    | zero => exact fun bytes => Nat.le_refl _
    | succ steps ih =>
      intro bytes
      unfold bytesNeededFrom
      split
      · exact Nat.le_trans (Nat.le_succ _) (ih _)
      · exact Nat.le_refl _
  unfold bytesNeeded at found
  split at found
  · cases found
  · exact Option.some.inj found ▸ from_ _ 1

theorem objects_ne_nil (client : Value) : client.objects ≠ [] :=
  List.ne_nil_of_length_pos (Nat.lt_of_le_of_lt (Nat.zero_le _) (client.reference_lt []))

/-- A list that is serialized at all can be serialized: it is an aggregate with room in its buffer. -/
theorem serializable_of_some (wellFormed : client.WellFormed) {fresh : Nat → Byte}
    {out : List Nat × List Byte}
    (found : binaryPropertyListSerializer target client fresh = some out) :
    Serializable target client := by
  obtain ⟨plan, planned, describes⟩ := binaryPropertyListPlan_eq target wellFormed
  simp only [binaryPropertyListSerializer, planned, Option.bind_eq_bind, Option.bind_some,
    Option.bind_eq_some_iff] at found
  obtain ⟨sizes, laidOut, written, run, -⟩ := found
  have of := (layout_iff describes).mp laidOut
  have positive := bytesNeeded_pos of.reference
  let frame : Frame := { target, objects := client.objects, layout := sizes }
  have state : frame.State (freshSerializer plan sizes fresh) [] [] :=
    freshSerializer_state describes fresh
  have length := frame.length_written client.objects
  by_cases aggregate : client.isAggregate
  · have room := (root_emitted positive wellFormed aggregate state rfl).needed _ run
    have below := room.below
    refine ⟨aggregate, of.fits (objects_ne_nil client) ?_ room.table, room.arrays⟩
    rw [length, Nat.mul_comm frame.referenceSize] at below
    change headerSize + (byteCount target client.objects +
      referenceCount client.objects * sizes.objectReferenceSize) + _ ≤ sizes.offsetTableStart at below
    omega
  · have room : frame.Room client.objects 1 :=
      (client.write_emitted frame positive wellFormed state (List.prefix_refl _)
        fun isAggregate => absurd isAggregate aggregate).needed _ run
    have below := room.below
    have start := of.tableStart
    have less := Nat.mod_le (headerSize + byteCount target client.objects +
      referenceCount client.objects * sizes.objectReferenceSize) (2 ^ target.sizeBits)
    rw [length, Nat.mul_comm frame.referenceSize] at below
    change headerSize + (byteCount target client.objects +
      referenceCount client.objects * sizes.objectReferenceSize) +
        sizes.objectReferenceSize * 1 ≤ sizes.offsetTableStart at below
    unfold Target.size at start
    omega

/-- The objects of a list reach its offset table. -/
theorem length_header_written (target : Target) (objects : List Object) :
    headerSize + ((exactFrame target objects).written objects).length = tableStart target objects := by
  rw [Frame.length_written, tableStart, Nat.mul_comm (referenceCount objects), Nat.add_assoc]
  rfl

theorem length_objectTable (target : Target) (objects : List Object) :
    ((exactFrame target objects).table (objectOffsets target objects)).length =
      objects.length * width (tableStart target objects) := by
  rw [Frame.length_table, objectOffsets, Frame.length_offsets]
  rfl

theorem length_trailer (plan : Plan) (sizes : Layout) : (trailer plan sizes).length = trailerSize := by
  simp [trailer, trailerSize]

theorem length_listBytes (target : Target) (objects : List Object) :
    (listBytes target objects).length = listSize target objects := by
  have header : (ascii "bplist00").length = headerSize := rfl
  rw [listBytes, List.length_append, List.length_append, List.length_append, header,
    length_header_written, length_objectTable, length_trailer, listSize]

/-- The last steps of the constructor, once all objects are written. -/
theorem closeList_eq {s : Serializer} {objects : List Object} (describes : plan.Describes target objects)
    (state : (exactFrame target objects).State s objects []) :
    (do
      let s ← s.put 0 (ascii "bplist00")
      let s ← s.put (listSize target objects - trailerSize)
        (trailer plan (exactLayout target objects))
      some s.buffer) = some (listBytes target objects) := by
  have whole : s.buffer.length = listSize target objects := state.shape.sizes.length
  have header : (ascii "bplist00").length = headerSize := rfl
  have end_ := length_header_written target objects
  have tabled := length_objectTable target objects
  have closing := length_trailer plan (exactLayout target objects)
  have size : listSize target objects =
    tableStart target objects + objects.length * width (tableStart target objects) + trailerSize := rfl
  have first : 0 + (ascii "bplist00").length ≤ s.buffer.length := by omega
  have second : listSize target objects - trailerSize +
      (trailer plan (exactLayout target objects)).length ≤
        (overwrite s.buffer 0 (ascii "bplist00")).length := by
    rw [length_overwrite first]
    omega
  have same : trailer plan (exactLayout target objects) =
      trailer { currentObjectReference := objects.length } (exactLayout target objects) := by
    rw [trailer, describes.current, trailer]
  simp only [put_eq, if_pos first, Option.bind_eq_bind, Option.bind_some, if_pos second]
  congr 1
  apply Holds.eq
  · rw [listBytes, holds_append, holds_append, holds_append]
    refine ⟨⟨⟨?_, ?_⟩, ?_⟩, ?_⟩
    · exact (holds_overwrite first).overwrite second (.inl (by omega))
    · rw [Nat.zero_add, header]
      exact (state.shape.text.overwrite first (.inr (by omega))).overwrite second (.inl (by omega))
    · rw [List.length_append, header, end_, Nat.zero_add]
      have offsets : Holds s.buffer (tableStart target objects)
          ((exactFrame target objects).table (objectOffsets target objects)) := state.shape.offsets
      exact (offsets.overwrite first (.inr (by omega))).overwrite second (.inl (by omega))
    · rw [List.length_append, List.length_append, header, end_, tabled, ← same,
        show 0 + (tableStart target objects + _) = listSize target objects - trailerSize by omega]
      exact holds_overwrite second
  · rw [length_overwrite second, length_overwrite first, length_listBytes, whole]

theorem serializer_eq (wellFormed : client.WellFormed) (serializable : Serializable target client) :
    ∃ plan,
      binaryPropertyListPlan target client = some ((client.enlist []).trace, plan) ∧
      layout target plan = some (exactLayout target client.objects) ∧
      ∀ fresh, binaryPropertyListSerializer target client fresh =
        some ((client.enlist []).trace, listBytes target client.objects) := by
  obtain ⟨plan, planned, describes⟩ := binaryPropertyListPlan_eq target wellFormed
  have of := exactLayout_of (objects_ne_nil client) serializable.fits
  have laidOut := (layout_iff describes).mpr of
  refine ⟨plan, planned, laidOut, fun fresh => ?_⟩
  have room : (exactFrame target client.objects).Room client.objects 0 := by
    constructor
    · exact (length_header_written target client.objects).le
    · exact Nat.le_add_right ..
    · exact serializable.arrays
  obtain ⟨⟨references, s⟩, run, rfl, state⟩ := (root_emitted (bytesNeeded_pos of.reference) wellFormed
    serializable.aggregate (freshSerializer_state describes fresh) rfl).succeeds room
  have closed := closeList_eq describes state
  simp only [Option.bind_eq_bind, Option.bind_eq_some_iff, Option.some.injEq] at closed
  obtain ⟨opened, header, finished, footer, bytes⟩ := closed
  have ends : s.currentObjectReference = plan.currentObjectReference ∧
      s.currentAggregateBufferByte = (exactLayout target client.objects).offsetTableStart ∧
      s.currentByte = (exactLayout target client.objects).offsetTableStart ∧
      trailerSize ≤ (exactLayout target client.objects).bufferSize :=
    ⟨state.current.trans describes.current.symm, state.shape.aggregate,
      state.shape.currentByte.trans (length_header_written ..), Nat.le_add_left ..⟩
  simp only [binaryPropertyListSerializer, planned, laidOut, Option.bind_eq_bind, Option.bind_some]
  change client.write (serializerStream target) (freshSerializer plan _ fresh) = _ at run
  change opened.put ((exactLayout target client.objects).bufferSize - trailerSize) _ = _ at footer
  simp only [run, Option.bind_some, if_pos ends, header, footer, bytes]

end

/-- Both passes succeed, the second with the references of the first and with a buffer of the planned
size whose bytes are all written. -/
def SerializesAsPlanned (target : Target) (client : Value) : Prop :=
  ∃ references plan sizes bytes,
    binaryPropertyListPlan target client = some (references, plan) ∧
    layout target plan = some sizes ∧ bytes.length = sizes.bufferSize ∧
    ∀ fresh, binaryPropertyListSerializer target client fresh = some (references, bytes)

theorem serializesAsPlanned_iff (target : Target) {client : Value} (wellFormed : client.WellFormed) :
    SerializesAsPlanned target client ↔ Serializable target client := by
  constructor
  · rintro ⟨references, plan, sizes, bytes, -, -, -, serialized⟩
    exact serializable_of_some wellFormed (serialized fun _ => 0)
  · intro serializable
    obtain ⟨plan, planned, laidOut, serialized⟩ := serializer_eq wellFormed serializable
    exact ⟨_, plan, _, _, planned, laidOut, length_listBytes .., serialized⟩

/-- An array of three elements, two of which are the same object. -/
theorem serializesAsPlanned_sharedIntegers :
    SerializesAsPlanned .lp64 (.array [.integer 1, .string [97], .integer 1]) := by
  have objects : (Value.array [.integer 1, .string [97], .integer 1]).objects =
      [.integer 1, .string [97], .array [0, 1, 0]] := by decide
  apply (serializesAsPlanned_iff .lp64 (by simp [Value.WellFormed, AllWellFormed])).mpr
  constructor
  · rfl
  · decide
  · intro integers member
    rw [objects] at member
    simp at member

theorem not_serializesAsPlanned_booleanTrue :
    ¬∀ target client, client.WellFormed → SerializesAsPlanned target client := by
  intro all
  obtain ⟨_, _, _, _, -, -, -, serialized⟩ := all .lp64 .booleanTrue trivial
  have failed : binaryPropertyListSerializer .lp64 .booleanTrue (fun _ => 0) = none := by decide
  rw [serialized fun _ => 0] at failed
  cases failed

end WkcBrowser.PropertyList
