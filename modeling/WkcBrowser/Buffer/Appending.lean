import WkcBrowser.Buffer.ByteVector

/-! What the operations do to a buffer that stands for its bytes. -/

namespace WkcBrowser.Buffer

open Wtf Lib Lib.Chunks

theorem represents_empty : Represents {} [] 0 where
  size := rfl
  range := by decide
  short := le_rfl
  flat := rfl
  uniform := by simp [Uniform]
  cells := rfl
  tight := .inl (by decide)
  large := fun none => absurd rfl none

theorem uniform_append {before rest : List Segment} (first : Uniform segmentSize before)
    (second : Uniform segmentSize rest) : Uniform segmentSize (before ++ rest) := by
  intro segment inside
  rcases List.mem_append.mp inside with old | new
  · exact first segment old
  · exact second segment new

theorem unsignedSub_eq {a b : Nat} (ordered : b ≤ a) (range : a < 2 ^ 32) :
    unsignedSub a b = a - b := by
  unfold unsignedSub
  omega

theorem fillLast_nil {segments : List Segment} (some_segment : segments ≠ []) (position : Nat) :
    fillLast segments position [] = segments := by
  obtain ⟨front, last, rfl⟩ := List.eq_nil_or_concat' segments |>.resolve_left some_segment
  simp [fillLast, memcpy_nil]

namespace Represents

variable {b : SharedBuffer} {bytes : List Byte} {free : Nat}

theorem no_segments (represents : Represents b bytes free) (small : bytes.length ≤ segmentSize) :
    b.m_segments = [] := by
  by_contra some_segment
  have large := represents.large some_segment
  omega

/-- Without segments the flat part is all. -/
theorem flat_all (represents : Represents b bytes free) (none_left : b.m_segments = []) :
    b.m_buffer = bytes.map some ∧ free = 0 := by
  have total := represents.length_segments
  rw [none_left, List.length_nil, Nat.zero_mul] at total
  have short := represents.short
  constructor
  · calc b.m_buffer = (bytes.take b.m_buffer.length).map some := represents.flat
      _ = bytes.map some := by rw [List.take_of_length_le (by omega)]
  · omega

/-- The segments that `append` copies to, the last of which has room. -/
def target (b : SharedBuffer) : List Segment :=
  if offsetInSegment (unsignedSub b.m_size b.m_buffer.length) = 0 then
    b.m_segments ++ [allocateSegment]
  else b.m_segments

theorem offset_eq (represents : Represents b bytes free) :
    offsetInSegment (unsignedSub b.m_size b.m_buffer.length) =
      (bytes.length - b.m_buffer.length) % segmentSize := by
  rw [offsetInSegment_eq, represents.size, unsignedSub_eq represents.short represents.range]

theorem append_small (represents : Represents b bytes free) (data : List Byte)
    (small : bytes.length + data.length ≤ segmentSize) :
    Represents (b.append data) (bytes ++ data) 0 := by
  have none_left := represents.no_segments (by omega)
  obtain ⟨all, -⟩ := represents.flat_all none_left
  have range : bytes.length + data.length < 2 ^ 32 := by
    simp only [segmentSize] at small
    omega
  have appended : b.append data =
      { b with m_size := bytes.length + data.length, m_buffer := (bytes ++ data).map some } := by
    rw [SharedBuffer.append, represents.size, Nat.mod_eq_of_lt range]
    simp only [if_pos small, all, List.map_append]
  rw [appended]
  exact {
    size := by simp
    range := by simpa using range
    short := by simp
    flat := by simp only [List.length_map, List.take_length]
    uniform := by simp [none_left, Uniform]
    cells := by simp [none_left]
    tight := .inl (by decide)
    large := fun some_segment => absurd none_left some_segment }

theorem append_large (represents : Represents b bytes free) (data : List Byte)
    (range : bytes.length + data.length < 2 ^ 32)
    (large : segmentSize < bytes.length + data.length) :
    let offset := (bytes.length - b.m_buffer.length) % segmentSize
    let bytesToCopy := min data.length (segmentSize - offset)
    b.append data = { b with
      m_size := bytes.length + data.length
      m_segments := fillLast (target b) offset (data.take bytesToCopy) ++
        appendSegments (data.drop bytesToCopy) } := by
  have offset := represents.offset_eq
  rw [represents.size] at offset
  simp only [SharedBuffer.append, target, represents.size, offset, Nat.mod_eq_of_lt range,
    if_neg (Nat.not_le.mpr large)]

theorem uniform_target (represents : Represents b bytes free) :
    Uniform segmentSize (target b) := by
  unfold target
  split
  · apply uniform_append represents.uniform
    simp [Uniform, allocateSegment]
  · exact represents.uniform

theorem target_ne_nil (represents : Represents b bytes free) : target b ≠ [] := by
  unfold target
  split
  · simp
  next within =>
    rw [represents.offset_eq] at within
    intro none_left
    have total := represents.length_segments
    rw [none_left, List.length_nil, Nat.zero_mul] at total
    simp only [segmentSize] at within
    omega

/-- The cells that `append` copies to. -/
theorem target_cells (represents : Represents b bytes free) :
    (target b).flatten = (bytes.drop b.m_buffer.length).map some ++ List.replicate
      (if (bytes.length - b.m_buffer.length) % segmentSize = 0 then free + segmentSize else free)
      none := by
  rw [target, represents.offset_eq]
  split
  · rw [List.flatten_append, List.flatten_singleton, represents.cells, allocateSegment,
      List.append_assoc, List.replicate_append_replicate]
  · exact represents.cells

/-- After the empty append the bytes are the same, but there may be one more segment. -/
theorem append_nil (represents : Represents b bytes free) :
    ∃ free', Represents (b.append []) bytes free' := by
  by_cases small : bytes.length ≤ segmentSize
  · have appended := represents.append_small [] small
    rw [List.append_nil] at appended
    exact ⟨0, appended⟩
  · have appended := represents.append_large [] represents.range (by simpa using small)
    have same := fillLast_nil (target_ne_nil represents)
      ((bytes.length - b.m_buffer.length) % segmentSize)
    simp only [List.length_nil, Nat.zero_min, List.take_nil, List.drop_nil, appendSegments_nil,
      List.append_nil, Nat.add_zero, same] at appended
    rw [appended]
    refine ⟨_, rfl, represents.range, represents.short, represents.flat,
      represents.uniform_target, represents.target_cells, ?_, fun _ => Nat.not_le.mp small⟩
    by_cases whole : (bytes.length - b.m_buffer.length) % segmentSize = 0
    · exact .inr (Nat.dvd_of_mod_eq_zero whole)
    · rw [if_neg whole]
      exact represents.tight

/-- The first copy goes right behind the bytes, and the cells from there on are free. -/
theorem target_spec (represents : Represents b bytes free) (few : free < segmentSize) :
    let offset := (bytes.length - b.m_buffer.length) % segmentSize
    ((target b).length - 1) * segmentSize + offset = bytes.length - b.m_buffer.length ∧
      (target b).flatten = (bytes.drop b.m_buffer.length).map some ++
        List.replicate (segmentSize - offset) none := by
  have cells := represents.target_cells
  have total := represents.length_segments
  have lengths := congrArg List.length cells
  rw [length_flatten represents.uniform_target] at lengths
  simp only [List.length_append, List.length_map, List.length_drop,
    List.length_replicate] at lengths
  by_cases whole : (bytes.length - b.m_buffer.length) % segmentSize = 0
  · rw [if_pos whole] at cells lengths
    have none_free : free = 0 := by
      simp only [segmentSize] at few total whole
      omega
    simp only [whole]
    rw [cells, none_free, Nat.zero_add, Nat.sub_zero]
    refine ⟨?_, rfl⟩
    rw [Nat.sub_mul, Nat.one_mul]
    simp only [segmentSize] at few total whole lengths ⊢
    omega
  · rw [if_neg whole] at cells lengths
    have rest_free : free = segmentSize - (bytes.length - b.m_buffer.length) % segmentSize := by
      simp only [segmentSize] at few total whole ⊢
      omega
    simp only [← rest_free]
    refine ⟨?_, cells⟩
    rw [Nat.sub_mul, Nat.one_mul]
    simp only [segmentSize] at few total whole lengths ⊢
    omega

/-- The cells after both parts of the loop of `append`. -/
theorem append_cells (represents : Represents b bytes free) (data : List Byte)
    (some_data : data ≠ []) (few : free < segmentSize) :
    let offset := (bytes.length - b.m_buffer.length) % segmentSize
    let bytesToCopy := min data.length (segmentSize - offset)
    ∃ free' < segmentSize,
      (fillLast (target b) offset (data.take bytesToCopy) ++
        appendSegments (data.drop bytesToCopy)).flatten =
      (bytes.drop b.m_buffer.length ++ data).map some ++ List.replicate free' none := by
  obtain ⟨behind, cells⟩ := represents.target_spec few
  have positive : 0 < data.length := List.length_pos_iff.mpr some_data
  have inside := Nat.mod_lt (bytes.length - b.m_buffer.length) (show 0 < segmentSize by decide)
  intro offset bytesToCopy
  have copied : (data.take bytesToCopy).length = bytesToCopy := by
    rw [List.length_take]
    omega
  have held : ((bytes.drop b.m_buffer.length).map some).length =
      bytes.length - b.m_buffer.length := by simp
  have filled := (fillLast_spec represents.uniform_target represents.target_ne_nil offset
    (data.take bytesToCopy) (by omega)).2
  rw [behind, cells, copied, List.take_left' held, ← held, List.drop_length_add_append,
    List.drop_replicate, held] at filled
  rw [List.flatten_append, filled]
  by_cases all : data.length ≤ segmentSize - offset
  · refine ⟨segmentSize - offset - bytesToCopy, by omega, ?_⟩
    have whole : bytesToCopy = data.length := Nat.min_eq_left all
    rw [whole, List.drop_length, List.take_length, appendSegments_nil]
    simp [offset]
  · obtain ⟨-, free', fewer, more⟩ := appendSegments_spec (data.drop bytesToCopy)
    refine ⟨free', fewer, ?_⟩
    have full : bytesToCopy = segmentSize - offset := Nat.min_eq_right (by omega)
    rw [more, full, Nat.sub_self, List.replicate_zero, List.append_nil, List.append_assoc,
      ← List.append_assoc (List.map some _) (List.map some _) (List.replicate _ _),
      ← List.map_append, List.take_append_drop, List.map_append, List.append_assoc]

/-- After bytes are appended they follow those that were there. -/
theorem append_bytes (represents : Represents b bytes free) (data : List Byte)
    (range : bytes.length + data.length < 2 ^ 32) (some_data : data ≠ [])
    (few : free < segmentSize) :
    ∃ free', Represents (b.append data) (bytes ++ data) free' := by
  have short := represents.short
  by_cases small : bytes.length + data.length ≤ segmentSize
  · exact ⟨0, represents.append_small data small⟩
  · have large := Nat.not_le.mp small
    obtain ⟨free', fewer, cells⟩ := represents.append_cells data some_data few
    have offset := Nat.mod_lt (bytes.length - b.m_buffer.length) (show 0 < segmentSize by decide)
    have filled := fillLast_spec represents.uniform_target (target_ne_nil represents)
      ((bytes.length - b.m_buffer.length) % segmentSize)
      (data.take (min data.length
        (segmentSize - (bytes.length - b.m_buffer.length) % segmentSize)))
      (by rw [List.length_take]; omega)
    rw [represents.append_large data range large]
    refine ⟨free', ?_⟩
    exact {
      size := (List.length_append ..).symm
      range := by rwa [List.length_append]
      short := by
        rw [List.length_append]
        exact short.trans (Nat.le_add_right ..)
      flat := by
        rw [List.take_append_of_le_length short]
        exact represents.flat
      uniform := uniform_append filled.1 (appendSegments_spec _).1
      cells := by rw [cells, List.drop_append_of_le_length short]
      tight := .inl fewer
      large := fun _ => by rwa [List.length_append] }

theorem merge (represents : Represents b bytes free) :
    ∃ free', Represents b.buffer bytes free' := by
  have cells := represents.buffer_cells
  unfold SharedBuffer.buffer at cells ⊢
  split
  next longer =>
    rw [if_pos longer] at cells
    dsimp only at cells
    refine ⟨0, represents.size, represents.range, ?_, ?_, by simp [Uniform], ?_,
      .inl (by decide), fun some_segment => absurd rfl some_segment⟩
    · simp only [cells, List.length_map, le_refl]
    · simp only [cells, List.length_map, List.take_length]
    · simp only [cells, List.length_map, List.drop_length, List.flatten_nil, List.map_nil,
        List.replicate_zero, List.append_nil]
  next merged => exact ⟨free, represents⟩

theorem copy_m_buffer (represents : Represents b bytes free) :
    b.copy.m_buffer = b.m_buffer ++ b.m_segments.flatten := by
  have whole : b.m_segments.map (List.take segmentSize) = b.m_segments := by
    calc b.m_segments.map (List.take segmentSize) = b.m_segments.map id :=
          List.map_congr_left fun segment inside =>
            List.take_of_length_le (represents.uniform segment inside).le
      _ = b.m_segments := List.map_id _
  rw [SharedBuffer.copy, whole]

/-- A copy of a buffer whose segments are full stands for the same bytes. -/
theorem copy (represents : Represents b bytes free) (full : b.SegmentsFull) :
    Represents b.copy bytes 0 := by
  have total := represents.length_segments
  have none_free : free = 0 := by
    rw [SharedBuffer.SegmentsFull, represents.size] at full
    omega
  have all : b.copy.m_buffer = bytes.map some := by
    rw [represents.copy_m_buffer, represents.cells, none_free, List.replicate_zero,
      List.append_nil]
    calc b.m_buffer ++ (bytes.drop b.m_buffer.length).map some
        = (bytes.take b.m_buffer.length).map some ++ (bytes.drop b.m_buffer.length).map some := by
          rw [← represents.flat]
      _ = bytes.map some := by rw [← List.map_append, List.take_append_drop]
  exact {
    size := represents.size
    range := represents.range
    short := by simp only [all, List.length_map, le_refl]
    flat := by simp only [all, List.length_map, List.take_length]
    uniform := by simp [SharedBuffer.copy, Uniform]
    cells := by
      rw [all, List.length_map, List.drop_length]
      rfl
    tight := .inl (by decide)
    large := fun some_segment => absurd rfl some_segment }

/-- A copy holds whole segments, so that it shows the bytes only when these are full. -/
theorem copy_shows_iff (represents : Represents b bytes free) :
    Shows b.copy bytes ↔ b.SegmentsFull := by
  constructor
  · intro shows
    have total := represents.length_segments
    have short := represents.short
    have held : b.copy.m_buffer.length = b.m_buffer.length + b.m_segments.length * segmentSize := by
      rw [represents.copy_m_buffer, List.length_append, length_flatten represents.uniform]
    have merged : b.copy.buffer = b.copy := by
      rw [SharedBuffer.buffer, if_neg]
      rw [held, show b.copy.m_size = b.m_size from rfl, represents.size]
      omega
    have lengths := congrArg List.length shows.buffer
    rw [merged, held, List.length_map] at lengths
    rw [SharedBuffer.SegmentsFull, represents.size]
    omega
  · exact fun full => (represents.copy full).shows

theorem few_of_last (represents : Represents b bytes free) (last : ¬b.LastSegmentEmpty) :
    free < segmentSize := by
  have total := represents.length_segments
  by_cases none_left : b.m_segments = []
  · rw [(represents.flat_all none_left).2]
    decide
  · have behind : (b.m_segments.length - 1) * segmentSize < bytes.length - b.m_buffer.length := by
      rw [← represents.size]
      exact Nat.not_le.mp fun inside => last ⟨none_left, inside⟩
    rw [Nat.sub_mul, Nat.one_mul] at behind
    omega

theorem append_whole (represents : Represents b bytes free) (data : List Byte)
    (range : bytes.length + data.length < 2 ^ 32)
    (large : segmentSize < bytes.length + data.length)
    (whole : (bytes.length - b.m_buffer.length) % segmentSize = 0) :
    ∃ rest ≠ [], b.append data = { b with
      m_size := bytes.length + data.length
      m_segments := b.m_segments ++ rest } := by
  have appended := represents.append_large data range large
  have last : target b = b.m_segments ++ [allocateSegment] := by
    rw [target, represents.offset_eq, if_pos whole]
  have filled : ∀ bytes : List Byte, fillLast (target b) 0 bytes =
      b.m_segments ++ [memcpy allocateSegment 0 bytes] := by
    intro bytes
    rw [last, fillLast, List.getLast?_concat, List.dropLast_concat]
  simp only [whole, filled, List.append_assoc] at appended
  exact ⟨_, List.cons_ne_nil _ _, appended⟩

/-- What is read from an empty segment before the last one. -/
theorem read_empty (represents : Represents b bytes free) (size : Nat) (rest : List Segment)
    (more : bytes.length < size) (some_rest : rest ≠ [])
    (whole : (bytes.length - b.m_buffer.length) % segmentSize = 0) (room : segmentSize ≤ free) :
    SharedBuffer.getSomeData { b with m_size := size, m_segments := b.m_segments ++ rest }
      bytes.length = List.replicate segmentSize none := by
  have total := represents.length_segments
  have short := represents.short
  have added : 0 < rest.length := List.length_pos_iff.mpr some_rest
  have index : segmentIndex (bytes.length - b.m_buffer.length) < b.m_segments.length := by
    simp only [segmentIndex, segmentSize] at *
    omega
  have start : segmentIndex (bytes.length - b.m_buffer.length) * segmentSize + 0 =
      ((bytes.drop b.m_buffer.length).map some).length := by
    rw [List.length_map, List.length_drop, Nat.add_zero]
    exact Nat.div_mul_cancel (Nat.dvd_of_mod_eq_zero whole)
  have cells := getD_drop represents.uniform index (Nat.zero_le segmentSize)
  rw [start, represents.cells, List.drop_left, List.take_replicate, Nat.sub_zero,
    Nat.min_eq_left room, List.drop_zero] at cells
  rw [SharedBuffer.getSomeData, if_neg (by dsimp only; omega), if_neg (by dsimp only; omega)]
  simp only [offsetInSegment_eq, whole, List.length_append]
  rw [List.getD_eq_getElem?_getD] at cells
  rw [if_neg (by omega), List.getD_eq_getElem?_getD, List.getElem?_append_left index,
    List.drop_zero, cells, Nat.sub_zero, List.take_replicate, Nat.min_self]

/-- Bytes that are appended after an empty segment are not what is read in their place. -/
theorem not_shows_after_empty (represents : Represents b bytes free) (data : List Byte)
    (some_data : data ≠ []) (range : bytes.length + data.length < 2 ^ 32)
    (last : b.LastSegmentEmpty) : ¬Shows (b.append data) (bytes ++ data) := by
  obtain ⟨some_segment, empty⟩ := last
  intro shows
  have total := represents.length_segments
  have tight := represents.tight
  have large := represents.large some_segment
  have short := represents.short
  have positive : 0 < data.length := List.length_pos_iff.mpr some_data
  rw [represents.size] at empty
  have whole : (bytes.length - b.m_buffer.length) % segmentSize = 0 := by
    rw [Nat.sub_mul, Nat.one_mul] at empty
    simp only [segmentSize] at total tight empty ⊢
    omega
  have room : segmentSize ≤ free := by
    have counted : 0 < b.m_segments.length := List.length_pos_iff.mpr some_segment
    rw [Nat.sub_mul, Nat.one_mul] at empty
    simp only [segmentSize] at total empty ⊢
    omega
  obtain ⟨rest, some_rest, appended⟩ := represents.append_whole data range (by omega) whole
  have read : (b.append data).getSomeData bytes.length = List.replicate segmentSize none := by
    rw [appended]
    exact represents.read_empty _ _ (by omega) some_rest whole room
  have stray := (shows.someData bytes.length).subset (read ▸ List.mem_replicate.mpr ⟨by decide, rfl⟩)
  simp at stray

theorem append (represents : Represents b bytes free) (data : List Byte)
    (range : bytes.length + data.length < 2 ^ 32) (last : data ≠ [] → ¬b.LastSegmentEmpty) :
    ∃ free', Represents (b.append data) (bytes ++ data) free' := by
  by_cases some_data : data = []
  · rw [some_data, List.append_nil]
    exact represents.append_nil
  · exact represents.append_bytes data range some_data (represents.few_of_last (last some_data))

/-- When the bytes are observed after they were appended. -/
theorem append_shows_iff (represents : Represents b bytes free) (data : List Byte) :
    Shows (b.append data) (bytes ++ data) ↔
      b.m_size + data.length < 2 ^ 32 ∧ (data ≠ [] → ¬b.LastSegmentEmpty) := by
  rw [represents.size]
  constructor
  · intro shows
    have range : bytes.length + data.length < 2 ^ 32 := by
      have size := shows.size
      have wrapped : (b.append data).m_size = (bytes.length + data.length) % 2 ^ 32 := by
        rw [← represents.size, SharedBuffer.append]
        dsimp only
        split <;> rfl
      rw [wrapped, List.length_append] at size
      omega
    exact ⟨range, fun some_data last =>
      represents.not_shows_after_empty data some_data range last shows⟩
  · rintro ⟨range, last⟩
    obtain ⟨free', appended⟩ := represents.append data range last
    exact appended.shows

end Represents

end WkcBrowser.Buffer
