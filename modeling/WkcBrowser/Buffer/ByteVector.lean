import WkcBrowser.Lib.Chunks
import WkcBrowser.Buffer.SharedBuffer

/-! A shared buffer stands for a byte vector: its flat part is a prefix of the bytes, and the cells
of its segments begin with the rest of them. -/

namespace WkcBrowser.Buffer

open Wtf Lib Lib.Chunks

/-- `free` cells at the end of the segments were never written. They are fewer than a segment has,
unless the bytes before them fill whole segments. -/
structure Represents (b : SharedBuffer) (bytes : List Byte) (free : Nat) : Prop where
  size : b.m_size = bytes.length
  range : bytes.length < 2 ^ 32
  short : b.m_buffer.length ≤ bytes.length
  flat : b.m_buffer = (bytes.take b.m_buffer.length).map some
  uniform : Uniform segmentSize b.m_segments
  cells : b.m_segments.flatten =
    (bytes.drop b.m_buffer.length).map some ++ List.replicate free none
  tight : free < segmentSize ∨ segmentSize ∣ bytes.length - b.m_buffer.length
  large : b.m_segments ≠ [] → segmentSize < bytes.length

theorem offsetInSegment_eq (position : Nat) : offsetInSegment position = position % segmentSize :=
  Nat.and_two_pow_sub_one_eq_mod position 12

theorem gather_eq {segments : List Segment} (uniform : Uniform segmentSize segments)
    (bytesLeft : Nat) (enough : bytesLeft ≤ segments.length * segmentSize) :
    gather bytesLeft segments = segments.flatten.take bytesLeft := by
  induction segments generalizing bytesLeft with
  | nil =>
    obtain rfl : bytesLeft = 0 := by simpa using enough
    simp [gather]
  | cons segment segments ih =>
    have length := uniform segment List.mem_cons_self
    rw [List.length_cons, Nat.succ_mul] at enough
    rw [gather, ih uniform.tail _ (by omega), List.flatten_cons, List.take_append, length]
    by_cases inside : bytesLeft ≤ segmentSize
    · rw [Nat.min_eq_left inside, Nat.sub_self, Nat.sub_eq_zero_of_le inside]
    · have whole : segment.take segmentSize = segment := List.take_of_length_le length.le
      have all : segment.take bytesLeft = segment := List.take_of_length_le (by omega)
      rw [Nat.min_eq_right (by omega), whole, all]

theorem memcpy_length (destination : Segment) (position : Nat) (source : List Byte)
    (room : position + source.length ≤ destination.length) :
    (memcpy destination position source).length = destination.length := by
  simp only [memcpy, List.length_append, List.length_take, List.length_map, List.length_drop]
  omega

theorem memcpy_nil (destination : Segment) (position : Nat) :
    memcpy destination position [] = destination := by
  simp [memcpy]

theorem memcpy_allocateSegment (source : List Byte) :
    memcpy allocateSegment 0 source =
      source.map some ++ List.replicate (segmentSize - source.length) none := by
  simp [memcpy, allocateSegment]

theorem appendSegments_nil : appendSegments [] = [] := by
  rw [appendSegments, if_pos rfl]

/-- The further segments of `append` hold the bytes, and free cells in the last one only. -/
theorem appendSegments_spec (data : List Byte) :
    Uniform segmentSize (appendSegments data) ∧ ∃ free < segmentSize,
      (appendSegments data).flatten = data.map some ++ List.replicate free none := by
  fun_induction appendSegments data with
  | case1 => exact ⟨by simp [Uniform], 0, by decide, rfl⟩
  | case2 data nonempty ih =>
    obtain ⟨uniform, free, fewer, cells⟩ := ih
    have positive : 0 < data.length := List.length_pos_iff.mpr nonempty
    have first : (memcpy allocateSegment 0 (data.take segmentSize)).length = segmentSize := by
      rw [memcpy_length _ _ _ (by simp [allocateSegment])]
      simp [allocateSegment]
    refine ⟨List.forall_mem_cons.mpr ⟨first, uniform⟩, ?_⟩
    by_cases more : segmentSize ≤ data.length
    · refine ⟨free, fewer, ?_⟩
      rw [List.flatten_cons, cells, memcpy_allocateSegment, List.length_take,
        Nat.min_eq_left more, Nat.sub_self, List.replicate_zero, List.append_nil,
        ← List.append_assoc, ← List.map_append, List.take_append_drop]
    · refine ⟨segmentSize - data.length, by omega, ?_⟩
      rw [List.drop_eq_nil_of_le (by omega), appendSegments_nil, List.take_of_length_le (by omega),
        memcpy_allocateSegment, List.flatten_singleton]

/-- What the first copy of `append` leaves in the cells. -/
theorem fillLast_spec {segments : List Segment} (uniform : Uniform segmentSize segments)
    (some_segment : segments ≠ []) (position : Nat) (data : List Byte)
    (room : position + data.length ≤ segmentSize) :
    Uniform segmentSize (fillLast segments position data) ∧
      (fillLast segments position data).flatten =
        segments.flatten.take ((segments.length - 1) * segmentSize + position) ++ data.map some ++
          segments.flatten.drop ((segments.length - 1) * segmentSize + position + data.length) := by
  obtain ⟨front, last, rfl⟩ := List.eq_nil_or_concat' segments |>.resolve_left some_segment
  have lastLength : last.length = segmentSize := uniform last (by simp)
  have frontUniform : Uniform segmentSize front := fun segment inside =>
    uniform segment (List.mem_append_left _ inside)
  have frontLength := length_flatten frontUniform
  have filled : fillLast (front ++ [last]) position data = front ++ [memcpy last position data] := by
    simp [fillLast]
  have fits : (memcpy last position data).length = segmentSize := by
    rw [memcpy_length _ _ _ (by omega), lastLength]
  rw [filled]
  constructor
  · intro segment inside
    rcases List.mem_append.mp inside with old | new
    · exact frontUniform segment old
    · rw [List.mem_singleton.mp new, fits]
  · simp only [List.flatten_append, List.flatten_singleton, List.length_append,
      List.length_singleton, Nat.add_sub_cancel, ← frontLength, memcpy]
    rw [List.take_length_add_append, Nat.add_assoc, List.drop_length_add_append]
    simp only [List.append_assoc]

namespace Represents

variable {b : SharedBuffer} {bytes : List Byte} {free : Nat}

theorem length_segments (represents : Represents b bytes free) :
    b.m_segments.length * segmentSize = bytes.length - b.m_buffer.length + free := by
  have lengths := congrArg List.length represents.cells
  rw [length_flatten represents.uniform] at lengths
  simpa using lengths

theorem buffer_cells (represents : Represents b bytes free) :
    b.buffer.m_buffer = bytes.map some := by
  have short := represents.short
  unfold SharedBuffer.buffer
  split
  next longer =>
    rw [represents.size] at longer ⊢
    have enough := represents.length_segments
    dsimp only
    rw [gather_eq represents.uniform _ (by omega), represents.cells,
      List.take_left' (by simp)]
    calc b.m_buffer ++ (bytes.drop b.m_buffer.length).map some
        = (bytes.take b.m_buffer.length).map some ++ (bytes.drop b.m_buffer.length).map some := by
          rw [← represents.flat]
      _ = bytes.map some := by rw [← List.map_append, List.take_append_drop]
  next merged =>
    rw [represents.size] at merged
    calc b.m_buffer = (bytes.take b.m_buffer.length).map some := represents.flat
      _ = bytes.map some := by rw [List.take_of_length_le (by omega)]

theorem getSomeData_flat (represents : Represents b bytes free) {position : Nat}
    (inside : position < b.m_buffer.length) :
    b.getSomeData position <+: (bytes.drop position).map some ∧ b.getSomeData position ≠ [] := by
  have short := represents.short
  have read : b.getSomeData position = b.m_buffer.drop position := by
    rw [SharedBuffer.getSomeData, represents.size, if_neg (by omega), if_pos inside]
  rw [read]
  constructor
  · rw [represents.flat, ← List.map_drop, List.drop_take]
    exact (List.take_prefix _ _).map some
  · rw [ne_eq, List.drop_eq_nil_iff]
    omega

/-- The cells from a position of the segmented part to the end of its segment. -/
theorem segment_cells (represents : Represents b bytes free) {position : Nat}
    (behind : b.m_buffer.length ≤ position) (inside : position < bytes.length) :
    (b.m_segments.getD (segmentIndex (position - b.m_buffer.length)) []).drop
        (offsetInSegment (position - b.m_buffer.length)) =
      ((bytes.drop position).map some ++ List.replicate free none).take
        (segmentSize - offsetInSegment (position - b.m_buffer.length)) := by
  have total := represents.length_segments
  have positive : 0 < segmentSize := by decide
  have index : segmentIndex (position - b.m_buffer.length) < b.m_segments.length := by
    apply Nat.div_lt_of_lt_mul
    rw [Nat.mul_comm, total]
    omega
  have offset := Nat.mod_lt (position - b.m_buffer.length) positive
  rw [offsetInSegment_eq, getD_drop represents.uniform index (by omega), represents.cells,
    segmentIndex, Nat.div_add_mod', List.drop_append_of_le_length (by simp; omega), ← List.map_drop,
    List.drop_drop]
  congr 4
  omega

/-- What is read from a segment other than the last is a whole segment of bytes. -/
theorem segment_room (represents : Represents b bytes free) {position : Nat}
    (behind : b.m_buffer.length ≤ position) (inside : position < bytes.length)
    (notLast : segmentIndex (position - b.m_buffer.length) ≠ b.m_segments.length - 1) :
    segmentSize - (position - b.m_buffer.length) % segmentSize ≤ bytes.length - position := by
  have total := represents.length_segments
  have tight := represents.tight
  simp only [segmentIndex, segmentSize] at *
  omega

/-- A read from a segment. -/
theorem getSomeData_segment (represents : Represents b bytes free) {position : Nat}
    (behind : b.m_buffer.length ≤ position) (inside : position < bytes.length) :
    b.getSomeData position <+: (bytes.drop position).map some ∧ b.getSomeData position ≠ [] := by
  have read : ∃ length, 0 < length ∧ length ≤ bytes.length - position ∧
      b.getSomeData position = ((bytes.drop position).map some).take length := by
    have cells := represents.segment_cells behind inside
    rw [SharedBuffer.getSomeData, represents.size, if_neg (by omega), if_neg (by omega)]
    have room := represents.segment_room behind inside
    have offset := Nat.mod_lt (position - b.m_buffer.length) (show 0 < segmentSize by decide)
    simp only [offsetInSegment_eq] at cells ⊢
    rw [cells, List.take_take]
    have fits : min
        (if segmentIndex (position - b.m_buffer.length) = b.m_segments.length - 1 then
          bytes.length - b.m_buffer.length - (position - b.m_buffer.length)
        else segmentSize - (position - b.m_buffer.length) % segmentSize)
        (segmentSize - (position - b.m_buffer.length) % segmentSize) ≤ bytes.length - position := by
      split
      · omega
      next notLast => exact (Nat.min_le_left ..).trans (room notLast)
    refine ⟨_, ?_, fits, List.take_append_of_le_length (by simpa using fits)⟩
    split <;> omega
  obtain ⟨length, positive, fits, read⟩ := read
  rw [read]
  refine ⟨List.take_prefix _ _, ?_⟩
  apply List.ne_nil_of_length_pos
  simp only [List.length_take, List.length_map, List.length_drop]
  omega

theorem shows (represents : Represents b bytes free) : Shows b bytes where
  size := represents.size
  someData position := by
    by_cases inside : position < bytes.length
    · by_cases flat : position < b.m_buffer.length
      · exact (represents.getSomeData_flat flat).1
      · exact (represents.getSomeData_segment (by omega) inside).1
    · have nothing : b.getSomeData position = [] := by
        rw [SharedBuffer.getSomeData, represents.size, if_pos (by omega)]
      rw [nothing]
      exact List.nil_prefix
  noEarlyEnd position inside := by
    by_cases flat : position < b.m_buffer.length
    · exact (represents.getSomeData_flat flat).2
    · exact (represents.getSomeData_segment (by omega) inside).2
  buffer := represents.buffer_cells

end Represents

end WkcBrowser.Buffer
