import WkcBrowser.PropertyList.Emission

/-! A serializer writes the values of a client as the objects that were planned. Every call succeeds
exactly when there is room for what has been written with it. -/

namespace WkcBrowser.PropertyList

open Wtf Lib.ByteOrder Lib.Provided

/-- Room for some objects and for the references of unfinished aggregates. -/
structure Frame.Room (frame : Frame) (objects : List Object) (pending : Nat) : Prop where
  below : headerSize + (frame.written objects).length + frame.referenceSize * pending ≤
    frame.tableStart
  table : frame.tableStart + objects.length * frame.layout.offsetSize ≤ frame.layout.bufferSize
  arrays : ∀ integers, .integerArray integers ∈ objects → integers.length < 2 ^ 32

/-- A serializer that has written some objects. -/
structure Frame.State (frame : Frame) (s : Serializer) (objects : List Object) (pending : List Nat) :
    Prop where
  shape : frame.Shape s (frame.written objects) (frame.offsets objects headerSize) pending
  room : objects ≠ [] → frame.Room objects pending.length

section
variable {frame : Frame} {s : Serializer} {objects all : List Object} {object : Object}
  {pending : List Nat}

theorem Frame.length_written_le (prefix_ : objects <+: all) :
    (frame.written objects).length ≤ (frame.written all).length := by
  obtain ⟨more, rfl⟩ := prefix_
  simp [written]

/-- Room for more is room for less. -/
theorem Frame.Room.mono {fewer more : Nat} (room : frame.Room all more) (prefix_ : objects <+: all)
    (fewer_le : fewer ≤ more) : frame.Room objects fewer where
  below := by
    have texts := frame.length_written_le prefix_
    have waiting := Nat.mul_le_mul_left frame.referenceSize fewer_le
    have below := room.below
    omega
  table := by
    have entries := Nat.mul_le_mul_right frame.layout.offsetSize prefix_.length_le
    have table := room.table
    omega
  arrays integers member := room.arrays integers (prefix_.subset member)

theorem Frame.Room.within {pending : Nat} (room : frame.Room objects pending) :
    frame.tableStart ≤ frame.layout.bufferSize :=
  Nat.le_trans (Nat.le_add_right ..) room.table

theorem Frame.State.current (state : frame.State s objects pending) :
    s.currentObjectReference = objects.length :=
  state.shape.current.trans (Frame.length_offsets ..)

theorem Frame.State.apart (state : frame.State s objects pending) :
    frame.written objects = [] ∨
      headerSize + (frame.written objects).length ≤ frame.tableStart := by
  by_cases none_ : objects = []
  · exact .inl (by rw [none_]; rfl)
  · exact .inr (Nat.le_trans (Nat.le_add_right ..) (state.room none_).below)

theorem Frame.State.arrays (state : frame.State s objects pending) :
    ∀ integers, .integerArray integers ∈ objects → integers.length < 2 ^ 32 := by
  intro integers member
  exact (state.room (List.ne_nil_of_mem member)).arrays integers member

theorem Frame.bytes_ne_nil (object : Object) : frame.bytes object ≠ [] := by
  cases object with
  | booleanTrue => exact List.cons_ne_nil _ _
  | integer n =>
    rw [bytes]
    unfold integerBytes
    cases frame.target <;> grind
  | string s | uniqueString s =>
    rw [bytes, stringBytes]
    split <;> exact List.append_ne_nil_of_left_ne_nil (markerBytes_ne_nil _ _ _) _
  | uniqueCString s =>
    unfold bytes cStringBytes
    exact List.append_ne_nil_of_left_ne_nil (markerBytes_ne_nil _ _ _) (s.take _)
  | integerArray | array | dictionary =>
    rw [bytes]
    exact List.append_ne_nil_of_left_ne_nil (markerBytes_ne_nil _ _ _) _

/-- Room for one more object. -/
theorem Frame.room_snoc_iff {pending : Nat}
    (arrays : ∀ integers, .integerArray integers ∈ objects → integers.length < 2 ^ 32) :
    frame.Room (objects ++ [object]) pending ↔
      (headerSize + (frame.written objects ++ frame.bytes object).length +
          frame.referenceSize * pending ≤ frame.tableStart ∧
        frame.tableStart + (objects.length + 1) * frame.layout.offsetSize ≤
          frame.layout.bufferSize) ∧
      ∀ integers, object = .integerArray integers → integers.length < 2 ^ 32 := by
  constructor
  · intro room
    have below := room.below
    have table := room.table
    rw [written_snoc] at below
    rw [List.length_append, List.length_singleton] at table
    refine ⟨⟨below, table⟩, fun integers same => room.arrays integers ?_⟩
    rw [← same]
    exact List.mem_append_right _ List.mem_cons_self
  · rintro ⟨⟨below, table⟩, short⟩
    constructor
    · rwa [written_snoc]
    · rwa [List.length_append, List.length_singleton]
    · intro integers member
      rcases List.mem_append.mp member with old | new
      · exact arrays integers old
      · exact short integers (List.mem_singleton.mp new).symm

/-- An object is appended with its offset. -/
theorem appendObject_provided
    (shape : frame.Shape s (frame.written objects) (frame.offsets objects headerSize) pending)
    (apart : frame.written objects = [] ∨
      headerSize + (frame.written objects).length ≤ frame.tableStart)
    (arrays : ∀ integers, .integerArray integers ∈ objects → integers.length < 2 ^ 32)
    (single : ∀ integers, object ≠ .integerArray integers) :
    Provided (frame.Room (objects ++ [object]) pending.length)
      (do Serializer.appendBytes (frame.bytes object) (← s.startObject))
      fun s => frame.State s (objects ++ [object]) pending := by
  have started := startObject_provided shape apart
  rw [Frame.length_offsets] at started
  have appended : Provided (headerSize + (frame.written objects ++ frame.bytes object).length +
          frame.referenceSize * pending.length ≤ frame.tableStart ∧
        frame.tableStart + (objects.length + 1) * frame.layout.offsetSize ≤
          frame.layout.bufferSize)
      (do Serializer.appendBytes (frame.bytes object) (← s.startObject))
      fun s => frame.Shape s (frame.written (objects ++ [object]))
        (frame.offsets (objects ++ [object]) headerSize) pending := by
    apply started.bind And.right
    intro s entry shape
    have within : frame.tableStart ≤ frame.layout.bufferSize :=
      Nat.le_trans (Nat.le_add_right ..) entry
    rw [Frame.written_snoc, Frame.offsets_snoc]
    exact (appendBytes_provided _ shape within fun none_ =>
      absurd none_ (Frame.bytes_ne_nil object)).congr (and_iff_left entry)
  have same : frame.Room (objects ++ [object]) pending.length ↔ _ :=
    (Frame.room_snoc_iff arrays).trans
      (and_iff_left fun integers equal => absurd equal (single integers))
  exact (appended.congr same).mono fun _ room shape => ⟨shape, fun _ => room⟩

/-- The integers of an array are looked up in the plan. -/
theorem appendObjectReferences_provided {text : List Byte} {offsets : List Nat} (integers : List Nat)
    (shape : frame.Shape s text offsets pending)
    (members : ∀ n ∈ integers, .integer n ∈ frame.objects)
    (within : frame.tableStart ≤ frame.layout.bufferSize)
    (enough : headerSize + text.length + frame.referenceSize * pending.length ≤ frame.tableStart) :
    Provided (headerSize + (text ++ frame.references
          (integers.map fun n => frame.objects.idxOf (.integer n))).length +
        frame.referenceSize * pending.length ≤ frame.tableStart)
      (Serializer.appendObjectReferences integers s)
      fun s => frame.Shape s (text ++ frame.references
        (integers.map fun n => frame.objects.idxOf (.integer n))) offsets pending := by
  induction integers generalizing s text with
  | nil =>
    rw [List.map_nil, Frame.references, List.flatMap_nil, List.append_nil]
    exact provided_some enough shape
  | cons n integers ih =>
    rw [List.forall_mem_cons] at members
    have found : s.integerObjectReference n = some (frame.objects.idxOf (.integer n)) :=
      (shape.sizes.plan.places (.integer n) rfl).trans (place_of_mem members.1)
    rw [Serializer.appendObjectReferences, found, List.map_cons, Frame.references,
      List.flatMap_cons, ← List.append_assoc, shape.sizes.objectReferenceSize]
    apply (appendBytes_provided _ shape within fun _ => enough).bind
    · intro room
      rw [List.length_append] at room
      omega
    · intro s room shape
      exact ih shape members.2 room

theorem appendIntegerArrayObject_provided {integers : List Nat}
    (state : frame.State s objects pending) (members : ∀ n ∈ integers, .integer n ∈ frame.objects) :
    Provided (frame.Room (objects ++ [.integerArray integers]) pending.length)
      (s.appendIntegerArrayObject frame.target integers)
      fun s => frame.State s (objects ++ [.integerArray integers]) pending := by
  have started := startObject_provided state.shape state.apart
  rw [Frame.length_offsets] at started
  have appended : Provided ((headerSize + (frame.written objects ++
          frame.bytes (.integerArray integers)).length + frame.referenceSize * pending.length ≤
            frame.tableStart ∧
        frame.tableStart + (objects.length + 1) * frame.layout.offsetSize ≤
          frame.layout.bufferSize) ∧
        ∀ other, Object.integerArray integers = .integerArray other → other.length < 2 ^ 32)
      (s.appendIntegerArrayObject frame.target integers)
      fun s => frame.Shape s (frame.written (objects ++ [.integerArray integers]))
        (frame.offsets (objects ++ [.integerArray integers]) headerSize) pending := by
    apply started.bind fun room => room.1.2
    intro s entry shape
    have within : frame.tableStart ≤ frame.layout.bufferSize :=
      Nat.le_trans (Nat.le_add_right ..) entry
    rw [Frame.written_snoc, Frame.offsets_snoc, Frame.bytes, ← List.append_assoc]
    apply (appendBytes_provided _ shape within fun none_ =>
      absurd none_ (markerBytes_ne_nil _ _ _)).bind
    · rintro ⟨⟨room, -⟩, -⟩
      rw [List.length_append] at room
      omega
    · intro s room shape
      split
      · rename_i short
        apply (appendObjectReferences_provided integers shape members within room).congr
        constructor
        · exact fun enough => enough.1.1
        · intro enough
          exact ⟨⟨enough, entry⟩, fun other same => Object.integerArray.inj same ▸ short⟩
      · rename_i long
        exact provided_none fun enough => long (enough.2 integers rfl)
  exact (appended.congr (Frame.room_snoc_iff state.arrays)).mono
    fun _ room shape => ⟨shape, fun _ => room⟩

/-- A shared object is appended unless it is there already. -/
theorem appendOnce_provided (state : frame.State s objects pending)
    (prefix_ : share object objects <+: frame.objects)
    {append : Serializer → Option Serializer}
    (appended : object ∉ objects → Provided (frame.Room (objects ++ [object]) pending.length)
      (append s) fun s => frame.State s (objects ++ [object]) pending) :
    Provided (frame.Room (share object objects) pending.length)
      (s.appendOnce (frame.objects.idxOf object) append)
      fun s => frame.State s (share object objects) pending := by
  unfold Serializer.appendOnce
  rw [state.current]
  unfold share at prefix_ ⊢
  obtain ⟨more, same⟩ := prefix_
  split at same
  · rename_i member
    have index : frame.objects.idxOf object < objects.length := by
      rw [← same, List.idxOf_append_of_mem member]
      exact List.idxOf_lt_length_iff.mpr member
    rw [if_pos member, if_pos index.ne', if_pos index]
    exact provided_some (state.room (List.ne_nil_of_mem member)) state
  · rename_i missing
    have index : frame.objects.idxOf object = objects.length := by
      rw [← same, List.append_assoc, List.idxOf_append_of_notMem missing, List.singleton_append,
        List.idxOf_cons_self, Nat.add_zero]
    rw [if_neg missing, index, if_neg fun different => different rfl]
    exact appended missing

/-- The reference of an object joins those of the aggregate around it. -/
theorem addReference_provided (state : frame.State s objects pending) (some_ : objects ≠ [])
    (reference : Nat) :
    Provided (frame.Room objects (pending.length + 1)) (s.addAggregateObjectReference reference)
      fun s => frame.State s objects (reference :: pending) := by
  have room := state.room some_
  have stacked := state.shape.aggregate
  have within := room.within
  apply ((addAggregateObjectReference_provided state.shape reference).congr _).mono
  · exact fun _ enough shape => ⟨shape, fun _ => enough⟩
  · constructor
    · exact fun enough => ⟨enough.below, by omega⟩
    · exact fun enough => ⟨enough.1, room.table, room.arrays⟩

/-- A value that was written as a list of objects says, with its references. -/
structure Frame.Emitted (frame : Frame) (pending : List Nat) (enlisted : Enlisted)
    (written : List Nat × Serializer) : Prop where
  trace : written.1 = enlisted.trace
  state : frame.State written.2 enlisted.objects (enlisted.reference :: pending)

theorem idxOf_of_leading {xs ys : List Object} (prefix_ : xs <+: ys) (member : object ∈ xs) :
    ys.idxOf object = xs.idxOf object := by
  obtain ⟨more, rfl⟩ := prefix_
  exact List.idxOf_append_of_mem member

theorem shared_place (state : frame.State s objects pending) (member : object ∈ frame.objects)
    (shared : object.isShared) : s.plan.place object = some (frame.objects.idxOf object) := by
  rw [state.shape.sizes.plan.places object shared, place_of_mem member]

theorem shared_emitted (append : Serializer → Option Serializer)
    (state : frame.State s objects pending) (prefix_ : share object objects <+: frame.objects)
    (appended : object ∉ objects → Provided (frame.Room (objects ++ [object]) pending.length)
      (append s) fun s => frame.State s (objects ++ [object]) pending) :
    Provided (frame.Room (share object objects) (pending.length + 1))
      (single do
        let s ← s.appendOnce (frame.objects.idxOf object) append
        some (frame.objects.idxOf object,
          ← s.addAggregateObjectReference (frame.objects.idxOf object)))
      (frame.Emitted pending (enlistShared object objects)) := by
  have index := idxOf_of_leading prefix_ mem_share
  unfold single
  simp only [Option.bind_eq_bind, Option.bind_assoc, Option.bind_some]
  apply (appendOnce_provided state prefix_ appended).bind
  · exact fun room => room.mono (List.prefix_refl _) (Nat.le_succ _)
  intro s _ state
  apply (addReference_provided state (List.ne_nil_of_mem mem_share) _).bind id
  intro s room state
  rw [index] at state ⊢
  exact provided_some room ⟨rfl, state⟩

/-- An object that is not shared is announced before it is appended. -/
theorem unique_emitted (append : Serializer → Option Serializer)
    (state : frame.State s objects pending) (single_ : ∀ integers, object ≠ .integerArray integers)
    (appends : ∀ s, append s = do Serializer.appendBytes (frame.bytes object) (← s.startObject)) :
    Provided (frame.Room (objects ++ [object]) (pending.length + 1))
      (single do
        let s' ← s.addAggregateObjectReference s.currentObjectReference
        some (s.currentObjectReference, ← append s'))
      (frame.Emitted pending (enlistUnique object objects)) := by
  have stacked := state.shape.aggregate
  unfold single
  simp only [Option.bind_eq_bind, Option.bind_assoc, Option.bind_some]
  rw [state.current]
  apply (addAggregateObjectReference_provided state.shape objects.length).bind
  · intro room
    have less := room.mono (List.prefix_append objects [object]) (Nat.le_refl _)
    have within := room.within
    exact ⟨less.below, by omega⟩
  intro s announced shape
  have appended := appendObject_provided shape
    (.inr (Nat.le_trans (Nat.le_add_right ..) announced.1)) state.arrays single_
  rw [← appends] at appended
  exact appended.map (fun s => ([objects.length], s)) fun _ _ state => ⟨rfl, state⟩

theorem writeInteger_provided (n : Nat) (state : frame.State s objects pending)
    (prefix_ : share (.integer n) objects <+: frame.objects) :
    Provided (frame.Room (share (.integer n) objects) pending.length)
      (s.appendOnce (frame.objects.idxOf (.integer n)) fun s => s.appendIntegerObject frame.target n)
      fun s => frame.State s (share (.integer n) objects) pending :=
  appendOnce_provided state prefix_ fun _ =>
    appendObject_provided state.shape state.apart state.arrays fun _ => Object.noConfusion

theorem writeIntegerWithout_eq (n : Nat) (state : frame.State s objects pending)
    (member : .integer n ∈ frame.objects) :
    s.writeIntegerWithoutAddingAggregateObjectReference frame.target n = (do
      let s ← s.appendOnce (frame.objects.idxOf (.integer n))
        fun s => s.appendIntegerObject frame.target n
      some (frame.objects.idxOf (.integer n), s)) := by
  have found : s.integerObjectReference n = _ := shared_place state member rfl
  rw [Serializer.writeIntegerWithoutAddingAggregateObjectReference, found]
  rfl

theorem writeIntegers_provided (integers : List Nat) (state : frame.State s objects pending)
    (prefix_ : shareIntegers integers objects <+: frame.objects)
    (enough : integers = [] → frame.Room objects pending.length) :
    Provided (frame.Room (shareIntegers integers objects) pending.length)
      (Serializer.writeIntegers frame.target integers s)
      fun s => frame.State s (shareIntegers integers objects) pending := by
  induction integers generalizing s objects with
  | nil => exact provided_some (enough rfl) state
  | cons n integers ih =>
    have first := (prefix_shareIntegers integers).trans prefix_
    rw [Serializer.writeIntegers, writeIntegerWithout_eq n state (first.subset mem_share)]
    simp only [Option.bind_eq_bind, Option.bind_assoc, Option.bind_some]
    apply (writeInteger_provided n state first).bind
    · exact fun room => room.mono (prefix_shareIntegers integers) (Nat.le_refl _)
    · exact fun s room state => ih state prefix_ fun _ => room

/-- An aggregate whose items are all written. -/
theorem closeAggregate_provided {references : List Nat}
    (state : frame.State s objects (references.reverse ++ pending)) (some_ : references ≠ [])
    (room : frame.Room objects (references.reverse ++ pending).length)
    (positive : 0 < frame.referenceSize) {factor : Nat} (even : references.length % factor = 0)
    (unshared : ∀ integers, object ≠ .integerArray integers) {marker separate : Byte}
    (bytes : frame.bytes object = markerBytes frame.target marker separate
      (references.length / factor) ++ frame.references references)
    {saved : Nat} (start : saved + frame.referenceSize * pending.length = frame.tableStart) :
    Provided (frame.Room (objects ++ [object]) pending.length)
      (s.appendAggregate frame.target (frame.referenceSize * factor) marker separate saved)
      fun s => frame.State s (objects ++ [object]) pending := by
  have appended := appendAggregate_provided state.shape
    (fun none_ => some_ (List.reverse_eq_nil_iff.mp none_)) positive
    (by rwa [List.length_reverse]) (Nat.le_trans (Nat.le_add_right ..) room.below) marker separate
    start
  rw [List.length_reverse, List.reverse_reverse, ← bytes, Frame.length_offsets,
    ← Frame.written_snoc, ← Frame.offsets_snoc, Frame.written_snoc] at appended
  have same : frame.Room (objects ++ [object]) pending.length ↔ _ :=
    (Frame.room_snoc_iff room.arrays).trans
      (and_iff_left fun integers equal => absurd equal (unshared integers))
  rw [← Frame.written_snoc] at appended same
  exact (appended.congr same).mono fun _ room shape => ⟨shape, fun _ => room⟩

/-- The items of an aggregate that were written one after the other. -/
structure Frame.EmittedAll (frame : Frame) (pending : List Nat) (enlisted : EnlistedAll)
    (written : List Nat × Serializer) : Prop where
  trace : written.1 = enlisted.trace
  state : frame.State written.2 enlisted.objects (enlisted.references.reverse ++ pending)

/-- An aggregate that was closed, with its reference. -/
structure Frame.Closed (frame : Frame) (objects : List Object) (object : Object) (pending : List Nat)
    (closed : Nat × Serializer) : Prop where
  reference : closed.1 = objects.length
  state : frame.State closed.2 (objects ++ [object]) pending

theorem push_provided (state : frame.State s (objects ++ [object]) pending) :
    Provided (frame.Room (objects ++ [object]) (pending.length + 1))
      (do some (objects.length, ← s.addAggregateObjectReference objects.length))
      (frame.Closed objects object (objects.length :: pending)) :=
  (addReference_provided state (List.append_ne_nil_of_right_ne_nil _ (List.cons_ne_nil _ _)) _).map
    _ fun _ _ state => ⟨rfl, state⟩

/-- The ends of both aggregates. Only the last object of all has no aggregate around it. -/
theorem writeArrayEnd_provided {saved : Nat} (start : s.currentObjectReference = objects.length)
    (closed : Provided (frame.Room (objects ++ [object]) pending.length)
      (s.appendAggregate frame.target s.objectReferenceSize arrayMarkerByte
        arrayWithSeparateLengthMarkerByte saved)
      fun s => frame.State s (objects ++ [object]) pending)
    (more : objects.length + 1 < frame.objects.length) :
    Provided (frame.Room (objects ++ [object]) (pending.length + 1))
      (s.writeArrayEnd frame.target saved)
      (frame.Closed objects object (objects.length :: pending)) := by
  rw [Serializer.writeArrayEnd, start]
  apply closed.bind fun room => room.mono (List.prefix_refl _) (Nat.le_succ _)
  intro s _ state
  rw [state.current, state.shape.sizes.plan.current, List.length_append, List.length_singleton,
    if_pos more]
  exact push_provided state

theorem writeDictionaryEnd_provided {saved : Nat} (start : s.currentObjectReference = objects.length)
    (closed : Provided (frame.Room (objects ++ [object]) pending.length)
      (s.appendAggregate frame.target (s.objectReferenceSize * 2) dictionaryMarkerByte
        dictionaryWithSeparateLengthMarkerByte saved)
      fun s => frame.State s (objects ++ [object]) pending)
    (more : objects.length + 1 < frame.objects.length) :
    Provided (frame.Room (objects ++ [object]) (pending.length + 1))
      (s.writeDictionaryEnd frame.target saved)
      (frame.Closed objects object (objects.length :: pending)) := by
  rw [Serializer.writeDictionaryEnd, start]
  apply closed.bind fun room => room.mono (List.prefix_refl _) (Nat.le_succ _)
  intro s _ state
  rw [state.current, state.shape.sizes.plan.current, List.length_append, List.length_singleton,
    if_pos more.ne]
  exact push_provided state

/-- An aggregate is its items and what closes it. -/
theorem aggregate_emitted {all : EnlistedAll} {room : Prop} {before : List Nat}
    {written : Option (List Nat × Serializer)} (object : Object) (after : List Nat)
    (final : Serializer → Option (Nat × Serializer))
    (items : Provided room written (frame.EmittedAll before all))
    (more : frame.Room (all.objects ++ [object]) after.length → room)
    (ends : ∀ s, room → frame.State s all.objects (all.references.reverse ++ before) →
      Provided (frame.Room (all.objects ++ [object]) after.length) (final s)
        (frame.Closed all.objects object after)) :
    Provided (frame.Room (all.objects ++ [object]) after.length)
      (do
        let (references, s) ← written
        let (reference, s) ← final s
        some (references ++ [reference], s))
      fun written => written.1 = (all.close object).trace ∧
        frame.State written.2 (all.close object).objects after := by
  apply items.bind more
  rintro ⟨trace, s⟩ enough emitted
  apply (ends s enough emitted.state).map
  rintro ⟨reference, s⟩ _ ⟨rfl, state⟩
  exact ⟨congrArg (· ++ [all.objects.length]) emitted.trace, state⟩

/-- The room that an aggregate needs is enough for its items before it is closed. -/
theorem Frame.Room.items {references : List Nat} {pending : Nat}
    (room : frame.Room (objects ++ [object]) pending)
    (bytes : references.length = object.referenceCount) :
    frame.Room objects (references.length + pending) where
  below := by
    have below := room.below
    rw [written_snoc, List.length_append, length_bytes, ← bytes] at below
    rw [Nat.mul_add]
    omega
  table := (room.mono (List.prefix_append ..) (Nat.le_refl _)).table
  arrays := (room.mono (List.prefix_append ..) (Nat.le_refl _)).arrays

theorem array_closed {references : List Nat} {saved : Nat} (positive : 0 < frame.referenceSize)
    (some_ : references ≠ []) (room : frame.Room objects (references.reverse ++ pending).length)
    (start : saved + frame.referenceSize * pending.length = frame.tableStart)
    (state : frame.State s objects (references.reverse ++ pending)) :
    Provided (frame.Room (objects ++ [.array references]) pending.length)
      (s.appendAggregate frame.target s.objectReferenceSize arrayMarkerByte
        arrayWithSeparateLengthMarkerByte saved)
      fun s => frame.State s (objects ++ [.array references]) pending := by
  rw [state.shape.sizes.objectReferenceSize, ← Nat.mul_one frame.referenceSize]
  apply closeAggregate_provided state some_ room positive (Nat.mod_one _)
    (fun _ => Object.noConfusion) _ start
  rw [Nat.div_one, Frame.bytes]

theorem dictionary_closed {references : List Nat} {saved : Nat} (positive : 0 < frame.referenceSize)
    (some_ : references ≠ []) (even : references.length % 2 = 0)
    (room : frame.Room objects (references.reverse ++ pending).length)
    (start : saved + frame.referenceSize * pending.length = frame.tableStart)
    (state : frame.State s objects (references.reverse ++ pending)) :
    Provided (frame.Room (objects ++ [.dictionary references]) pending.length)
      (s.appendAggregate frame.target (s.objectReferenceSize * 2) dictionaryMarkerByte
        dictionaryWithSeparateLengthMarkerByte saved)
      fun s => frame.State s (objects ++ [.dictionary references]) pending := by
  rw [state.shape.sizes.objectReferenceSize]
  exact closeAggregate_provided state some_ room positive even (fun _ => Object.noConfusion) rfl start

end

mutual

theorem Value.write_emitted (frame : Frame) (positive : 0 < frame.referenceSize) :
    ∀ (value : Value) {s : Serializer} {objects : List Object} {pending : List Nat},
    value.WellFormed → frame.State s objects pending →
    (value.enlist objects).objects <+: frame.objects →
    (value.isAggregate → (value.enlist objects).objects.length < frame.objects.length) →
    Provided (frame.Room (value.enlist objects).objects (pending.length + 1))
      (value.write (serializerStream frame.target) s) (frame.Emitted pending (value.enlist objects))
  | .booleanTrue, s, objects, pending, _, state, prefix_, _ => by
    have found : s.plan.booleanTrueObjectReference = _ :=
      shared_place state (prefix_.subset mem_share) rfl
    change Provided _ (single s.writeBooleanTrue) _
    rw [Serializer.writeBooleanTrue, found]
    exact shared_emitted _ state prefix_ fun _ =>
      appendObject_provided state.shape state.apart state.arrays fun _ => Object.noConfusion
  | .integer n, s, objects, pending, _, state, prefix_, _ => by
    change Provided _ (single (s.writeInteger frame.target n)) _
    rw [Serializer.writeInteger, writeIntegerWithout_eq n state (prefix_.subset mem_share)]
    have written := shared_emitted (fun s => s.appendIntegerObject frame.target n) state prefix_
      fun _ => appendObject_provided state.shape state.apart state.arrays fun _ => Object.noConfusion
    simp only [single, Option.bind_eq_bind, Option.bind_assoc, Option.bind_some] at written ⊢
    exact written
  | .string string, s, objects, pending, _, state, prefix_, _ => by
    have found : s.plan.strings string = _ := shared_place state (prefix_.subset mem_share) rfl
    change Provided _ (single (s.writeString frame.target string)) _
    rw [Serializer.writeString, found]
    exact shared_emitted _ state prefix_ fun _ =>
      appendObject_provided state.shape state.apart state.arrays fun _ => Object.noConfusion
  | .integerArray integers, s, objects, pending, ⟨some_, _⟩, state, prefix_, _ => by
    have found : s.plan.integerArrays integers = _ :=
      shared_place state (prefix_.subset mem_share) rfl
    change Provided _ (single (s.writeIntegerArray frame.target integers)) _
    rw [Serializer.writeIntegerArray, found]
    simp only [single, Option.bind_eq_bind, Option.bind_assoc, Option.bind_some]
    have integers_ : shareIntegers integers objects <+: frame.objects := prefix_share.trans prefix_
    apply (writeIntegers_provided integers state integers_ fun none_ => absurd none_ some_).bind
    · exact fun room => room.mono prefix_share (Nat.le_succ _)
    intro s _ state
    have written := shared_emitted (fun s => s.appendIntegerArrayObject frame.target integers)
      state prefix_ fun _ => appendIntegerArrayObject_provided state fun _ member =>
        integers_.subset (mem_shareIntegers member)
    simp only [single, Option.bind_eq_bind, Option.bind_assoc, Option.bind_some] at written
    exact written
  | .uniqueString string, s, objects, pending, _, state, _, _ =>
    unique_emitted (fun s => s.appendStringObject frame.target string) state (fun _ => Object.noConfusion)
      fun _ => rfl
  | .uniqueCString string, s, objects, pending, _, state, _, _ =>
    unique_emitted (fun s => s.appendCStringObject frame.target string) state (fun _ => Object.noConfusion)
      fun _ => rfl
  | .array items, s, objects, pending, ⟨some_, wellFormed⟩, state, prefix_, more => by
    have inner := more rfl
    have count := length_references items objects
    simp only [Value.enlist, EnlistedAll.close, List.length_append, List.length_singleton] at inner
    have written := writeAll_emitted frame positive items wellFormed state
      ((List.prefix_append ..).trans prefix_) (Nat.lt_of_succ_lt inner)
      fun none_ => absurd none_ some_
    exact (aggregate_emitted (.array (enlistAll items objects).references)
      ((enlistAll items objects).objects.length :: pending)
      (fun s' => s'.writeArrayEnd frame.target s.currentAggregateBufferByte) written
      (fun room => count ▸ (room.mono (List.prefix_refl _) (Nat.le_succ _)).items rfl)
      fun s' room state' => writeArrayEnd_provided state'.current
        (array_closed positive (references_ne_nil some_ objects) (by simpa [count] using room)
          state.shape.aggregate state') inner).mono fun _ _ found => ⟨found.1, found.2⟩
  | .dictionary items, s, objects, pending, ⟨some_, even, wellFormed⟩, state, prefix_, more => by
    have inner := more rfl
    have count := length_references items objects
    simp only [Value.enlist, EnlistedAll.close, List.length_append, List.length_singleton] at inner
    have written := writeAll_emitted frame positive items wellFormed state
      ((List.prefix_append ..).trans prefix_) (Nat.lt_of_succ_lt inner)
      fun none_ => absurd none_ some_
    exact (aggregate_emitted (.dictionary (enlistAll items objects).references)
      ((enlistAll items objects).objects.length :: pending)
      (fun s' => s'.writeDictionaryEnd frame.target s.currentAggregateBufferByte) written
      (fun room => count ▸ (room.mono (List.prefix_refl _) (Nat.le_succ _)).items rfl)
      fun s' room state' => writeDictionaryEnd_provided state'.current
        (dictionary_closed positive (references_ne_nil some_ objects) (count.symm ▸ even)
          (by simpa [count] using room) state.shape.aggregate state') inner).mono
      fun _ _ found => ⟨found.1, found.2⟩

theorem writeAll_emitted (frame : Frame) (positive : 0 < frame.referenceSize) :
    ∀ (items : List Value) {s : Serializer} {objects : List Object} {pending : List Nat},
    AllWellFormed items → frame.State s objects pending →
    (enlistAll items objects).objects <+: frame.objects →
    (enlistAll items objects).objects.length < frame.objects.length →
    (items = [] → frame.Room objects pending.length) →
    Provided (frame.Room (enlistAll items objects).objects (items.length + pending.length))
      (writeAll (serializerStream frame.target) items s)
      (frame.EmittedAll pending (enlistAll items objects))
  | [], s, objects, pending, _, state, _, _, enough => by
    rw [List.length_nil, Nat.zero_add]
    exact provided_some (enough rfl) ⟨rfl, state⟩
  | item :: items, s, objects, pending, ⟨wellFormed, rest⟩, state, prefix_, more, _ => by
    have grown := prefix_enlistAll items (item.enlist objects).objects
    rw [writeAll]
    apply (Value.write_emitted frame positive item wellFormed state (grown.trans prefix_)
      fun _ => Nat.lt_of_le_of_lt grown.length_le more).bind
    · exact fun room => room.mono grown (by rw [List.length_cons]; omega)
    rintro ⟨trace, s⟩ room emitted
    have others := writeAll_emitted frame positive items rest emitted.state prefix_ more
      fun _ => room
    rw [List.length_cons, Nat.add_comm pending.length, ← Nat.add_assoc] at others
    rw [List.length_cons]
    apply others.map (fun rest => (trace ++ rest.1, rest.2))
    rintro ⟨rest, s⟩ _ written
    constructor
    · exact congrArg₂ (· ++ ·) emitted.trace written.trace
    · have state := written.state
      rw [List.append_cons, ← List.reverse_cons] at state
      exact state

end

end WkcBrowser.PropertyList
