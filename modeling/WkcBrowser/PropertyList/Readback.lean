import WkcBrowser.PropertyList.Nodes

/-! A reader finds every object of a serialized list through the offset table. -/

namespace WkcBrowser.PropertyList

open Wtf Lib.ByteOrder Lib.Window Format

theorem Listed.next {objects : List Object} (listed : Listed objects) {i : Nat} {object : Object}
    (found : objects[i]? = some object) : object.Next (objects.take i) := by
  induction listed with
  | nil => cases found
  | @snoc objects last _ next ih =>
    have inside := (List.getElem?_eq_some_iff.mp found).1
    rw [List.length_append, List.length_singleton] at inside
    by_cases old : i < objects.length
    · rw [List.getElem?_append_left old] at found
      rw [List.take_append_of_le_length (Nat.le_of_lt old)]
      exact ih found
    · have atEnd : i = objects.length := by omega
      rw [atEnd, List.getElem?_concat_length, Option.some.injEq] at found
      rw [atEnd, List.take_left, ← found]
      exact next

/-- An object only refers to objects in front of it. -/
theorem Listed.references_lt {objects : List Object} (listed : Listed objects) {i : Nat}
    {object : Object} (found : objects[i]? = some object) :
    ∀ reference ∈ object.references objects, reference < i := by
  have next := listed.next found
  have inside := (List.getElem?_eq_some_iff.mp found).1
  have length : (objects.take i).length = i := by
    rw [List.length_take]
    omega
  intro reference member
  cases object with
  | integerArray integers =>
    obtain ⟨n, counted, rfl⟩ := List.mem_map.mp member
    have earlier := next.2.2 n counted
    have index := List.idxOf_lt_length_iff.mpr earlier
    change objects.idxOf (.integer n) < i
    rw [idxOf_of_leading (List.take_prefix i objects) earlier]
    omega
  | array references => exact length ▸ next.2 reference member
  | dictionary references => exact length ▸ next.2.2 reference member
  | booleanTrue | integer | string | uniqueString | uniqueCString => cases member

theorem lt_pow_width (n : Nat) : n < 256 ^ width n :=
  Nat.lt_pow_succ_log_self (by decide) n

section
variable {target : Target} {objects : List Object}

theorem object_fits (listed : Listed objects) (fits : listSize target objects < 2 ^ target.sizeBits)
    {i : Nat} {object : Object} (found : objects[i]? = some object) :
    object.Fits (exactFrame target objects) := by
  have next := listed.next found
  have inside := (List.getElem?_eq_some_iff.mp found).1
  constructor
  · rintro n rfl
    exact next.1
  · rintro references rfl
    exact next.2.1
  · have part : (((exactFrame target objects).bytes object).length ≤
        ((exactFrame target objects).written objects).length) := by
      apply List.Sublist.length_le
      exact List.sublist_flatten_of_mem
        (List.mem_map_of_mem (List.mem_of_getElem? found))
    have whole := length_header_written target objects
    have size : tableStart target objects ≤ listSize target objects :=
      Nat.le_trans (Nat.le_add_right ..) (Nat.le_add_right ..)
    change _ < 2 ^ target.sizeBits
    omega
  · exact Nat.succ_pos _
  · intro reference member
    have earlier := listed.references_lt found reference member
    exact Nat.lt_trans (Nat.lt_trans earlier inside) (lt_pow_width _)

theorem holds_listBytes (target : Target) (objects : List Object) :
    Holds (listBytes target objects) headerSize ((exactFrame target objects).written objects) ∧
    Holds (listBytes target objects) (tableStart target objects)
      ((exactFrame target objects).table (objectOffsets target objects)) ∧
    Holds (listBytes target objects) (listSize target objects - trailerSize)
      (trailer { currentObjectReference := objects.length } (exactLayout target objects)) := by
  have header : (ascii "bplist00").length = headerSize := rfl
  have end_ := length_header_written target objects
  have tabled := length_objectTable target objects
  have size : listSize target objects = tableStart target objects +
    objects.length * width (tableStart target objects) + trailerSize := rfl
  have whole := holds_self (listBytes target objects)
  rw [listBytes, holds_append, holds_append, holds_append] at whole
  obtain ⟨⟨⟨-, text⟩, table⟩, closing⟩ := whole
  rw [← listBytes] at text table closing
  rw [header, Nat.zero_add] at text
  rw [List.length_append, header, end_, Nat.zero_add] at table
  rw [List.length_append, List.length_append, header, end_, tabled, Nat.zero_add,
    show tableStart target objects + _ = listSize target objects - trailerSize by omega] at closing
  exact ⟨text, table, closing⟩

theorem offsets_append (frame : Frame) (before after : List Object) (start : Nat) :
    frame.offsets (before ++ after) start = frame.offsets before start ++
      frame.offsets after (start + (frame.written before).length) := by
  induction before generalizing start with
  | nil => rfl
  | cons object before ih =>
    rw [List.cons_append, Frame.offsets, ih, Frame.offsets, List.cons_append, Frame.written,
      Frame.written, List.flatMap_cons, List.length_append, Nat.add_assoc]

/-- The offset of an object and the object itself, as a reader finds them. -/
theorem listBytes_drop (target : Target) (before after : List Object) (object : Object)
    (split : objects = before ++ object :: after) :
    ∃ offset, offset ≤ tableStart target objects ∧
      (∃ rest, (listBytes target objects).drop (tableStart target objects +
          before.length * width (tableStart target objects)) =
        bigEndian (width (tableStart target objects)) offset ++ rest) ∧
      ∃ rest, (listBytes target objects).drop offset =
        (exactFrame target objects).bytes object ++ rest := by
  obtain ⟨text, table, -⟩ := holds_listBytes target objects
  have end_ := length_header_written target objects
  rw [objectOffsets] at table
  generalize frame : exactFrame target objects = exact_ at *
  have size : exact_.layout.offsetSize = width (tableStart target objects) := by
    rw [← frame]
    rfl
  have offsets : exact_.offsets objects headerSize = exact_.offsets before headerSize ++
      (headerSize + (exact_.written before).length) :: exact_.offsets after
        (headerSize + (exact_.written before).length + (exact_.bytes object).length) := by
    rw [split, offsets_append, Frame.offsets]
  have entries : exact_.table (exact_.offsets objects headerSize) =
      exact_.table (exact_.offsets before headerSize) ++
        (bigEndian exact_.layout.offsetSize (headerSize + (exact_.written before).length) ++
          exact_.table (exact_.offsets after
            (headerSize + (exact_.written before).length + (exact_.bytes object).length))) := by
    rw [offsets]
    simp [Frame.table]
  have written : exact_.written objects =
      exact_.written before ++ (exact_.bytes object ++ exact_.written after) := by
    rw [split]
    simp [Frame.written]
  rw [written, holds_append, holds_append] at text
  rw [written, List.length_append] at end_
  refine ⟨headerSize + (exact_.written before).length, by omega, ?_, text.2.1.drop⟩
  rw [entries, holds_append, holds_append, Frame.length_table, Frame.length_offsets, size] at table
  exact table.2.1.drop

theorem nodeAt_listBytes (listed : Listed objects)
    (fits : listSize target objects < 2 ^ target.sizeBits) (top reference : Nat) :
    nodeAt (listBytes target objects)
        { offsetSize := width (tableStart target objects)
          referenceSize := width objects.length
          count := objects.length
          top
          tableStart := tableStart target objects } reference =
      objects[reference]?.bind (·.node objects) := by
  unfold nodeAt
  by_cases inside : reference < objects.length
  · have parts : objects =
        objects.take reference ++ objects[reference] :: objects.drop (reference + 1) := by
      rw [← List.drop_eq_getElem_cons inside, List.take_append_drop]
    obtain ⟨offset, short, ⟨rest, entry⟩, rest', bytes⟩ := listBytes_drop target _ _ _ parts
    rw [List.length_take, Nat.min_eq_left (Nat.le_of_lt inside)] at entry
    have fitting := object_fits listed fits (List.getElem?_eq_getElem inside)
    rw [if_pos inside, List.getElem?_eq_getElem inside, entry,
      decodeNumber_bigEndian (Nat.lt_of_le_of_lt short (lt_pow_width _))]
    simp only [Option.bind_eq_bind, Option.bind_some, bytes]
    exact decodeNode_bytes fitting
  · rw [if_neg inside, List.getElem?_eq_none (Nat.le_of_not_lt inside)]
    rfl

theorem width_le {n : Nat} (positive : 0 < n) (short : n < 2 ^ target.sizeBits) : width n ≤ 8 := by
  have short' : n < 256 ^ 8 := Nat.lt_of_lt_of_le short (by cases target <;> decide)
  exact Nat.log_lt_of_lt_pow positive.ne' short'

/-- What the trailer of a list says. -/
def listTrailer (target : Target) (objects : List Object) : Trailer where
  offsetSize := width (tableStart target objects)
  referenceSize := width objects.length
  count := objects.length
  top := objects.length - 1
  tableStart := tableStart target objects

theorem decodeTrailer_listBytes (some_ : objects ≠ [])
    (fits : listSize target objects < 2 ^ target.sizeBits) :
    decodeTrailer (listBytes target objects) = some (listTrailer target objects) := by
  have length := length_listBytes target objects
  have header : headerSize = 8 := rfl
  have closing_ : trailerSize = 32 := rfl
  have start : headerSize ≤ tableStart target objects :=
    Nat.le_trans (Nat.le_add_right ..) (Nat.le_add_right ..)
  have size : listSize target objects = tableStart target objects +
    objects.length * width (tableStart target objects) + trailerSize := rfl
  have count : objects.length ≤ byteCount target objects := length_le_byteCount
  have bytes : byteCount target objects ≤ tableStart target objects := by
    unfold tableStart
    omega
  have large : 2 ^ target.sizeBits ≤ 256 ^ 8 := by cases target <;> decide
  have opening : (listBytes target objects).take 8 = ascii "bplist00" := by
    rw [listBytes, List.append_assoc, List.append_assoc]
    rfl
  obtain ⟨-, -, closing⟩ := holds_listBytes target objects
  rw [trailer, List.append_assoc, List.append_assoc, List.append_assoc, holds_append] at closing
  obtain ⟨rest, last⟩ := closing.2.drop
  rw [List.length_replicate, show listSize target objects - trailerSize + 6 =
    (listBytes target objects).length - 26 by omega] at last
  have long : ¬(listBytes target objects).length < 40 := by omega
  unfold decodeTrailer
  rw [if_neg (not_or.mpr ⟨not_not.mpr opening, long⟩), last]
  have positive := List.length_pos_iff.mpr some_
  have offset : width (tableStart target objects) ≤ 8 :=
    width_le (by omega) (show _ < 2 ^ target.sizeBits by omega)
  have reference : width objects.length ≤ 8 :=
    width_le positive (show _ < 2 ^ target.sizeBits by omega)
  have sizes : [UInt8.ofNat (exactLayout target objects).offsetSize,
      UInt8.ofNat (exactLayout target objects).objectReferenceSize] =
        bigEndian 1 (width (tableStart target objects)) ++ bigEndian 1 (width objects.length) := rfl
  have first : (exactLayout target objects).offsetTableStart = tableStart target objects := rfl
  rw [sizes, first]
  simp only [List.append_assoc]
  rw [decodeNumber_bigEndian (by omega)]
  simp only [Option.bind_eq_bind, Option.bind_some]
  rw [decodeNumber_bigEndian (by omega)]
  simp only [Option.bind_some]
  rw [decodeNumber_bigEndian (by omega)]
  simp only [Option.bind_some]
  rw [decodeNumber_bigEndian (by omega)]
  simp only [Option.bind_some]
  rw [decodeNumber_bigEndian (by omega)]
  rfl

end

end WkcBrowser.PropertyList
