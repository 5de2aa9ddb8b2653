import WkcBrowser.Lib.Along
import WkcBrowser.Wtf.StringImpl

/-! `SharedBuffer`: bytes that are partly in a flat vector and partly in segments of one size, the
last of which need not be full. A cell of memory that was never written has no value. -/

namespace WkcBrowser.Buffer

open Wtf

abbrev Cell := Option Byte
abbrev Segment := List Cell

def segmentSize : Nat := 0x1000

def segmentIndex (position : Nat) : Nat := position / segmentSize

/-- `position & segmentPositionMask`. -/
def offsetInSegment (position : Nat) : Nat := position &&& 0x0FFF

def allocateSegment : Segment := List.replicate segmentSize none

def memcpy (destination : Segment) (position : Nat) (source : List Byte) : Segment :=
  destination.take position ++ source.map some ++ destination.drop (position + source.length)

/-- The difference of two `unsigned`. -/
def unsignedSub (a b : Nat) : Nat := (a + 2 ^ 32 - b) % 2 ^ 32

structure SharedBuffer where
  m_size : Nat := 0
  m_buffer : List Cell := []
  m_segments : List Segment := []
  deriving DecidableEq

/-- The first copy of `append`, to the last segment. -/
def fillLast (segments : List Segment) (position : Nat) (data : List Byte) : List Segment :=
  match segments.getLast? with
  | none => []
  | some last => segments.dropLast ++ [memcpy last position data]

/-- The further copies of `append`, each to a new segment. -/
def appendSegments (data : List Byte) : List Segment :=
  if data = [] then []
  else memcpy allocateSegment 0 (data.take segmentSize) :: appendSegments (data.drop segmentSize)
termination_by data.length
decreasing_by
  have nonempty : 0 < data.length := List.length_pos_iff.mpr (by assumption)
  simp only [List.length_drop, segmentSize]
  omega

/-- The loop of `buffer` over the segments, into the cells that were added to the vector. -/
def gather (bytesLeft : Nat) : List Segment → List Cell
  | [] => List.replicate bytesLeft none
  | segment :: segments =>
    let bytesToCopy := min bytesLeft segmentSize
    segment.take bytesToCopy ++ gather (bytesLeft - bytesToCopy) segments

namespace SharedBuffer

def append (b : SharedBuffer) (data : List Byte) : SharedBuffer :=
  let positionInSegment := offsetInSegment (unsignedSub b.m_size b.m_buffer.length)
  let m_size := (b.m_size + data.length) % 2 ^ 32
  if m_size ≤ segmentSize then { b with m_size, m_buffer := b.m_buffer ++ data.map some }
  else
    let segments :=
      if positionInSegment = 0 then b.m_segments ++ [allocateSegment] else b.m_segments
    let bytesToCopy := min data.length (segmentSize - positionInSegment)
    { b with
      m_size
      m_segments := fillLast segments positionInSegment (data.take bytesToCopy) ++
        appendSegments (data.drop bytesToCopy) }

/-- The result is `m_buffer` of the state. -/
def buffer (b : SharedBuffer) : SharedBuffer :=
  if b.m_size > b.m_buffer.length then
    { b with
      m_buffer := b.m_buffer ++ gather (b.m_size - b.m_buffer.length) b.m_segments
      m_segments := [] }
  else b

def copy (b : SharedBuffer) : SharedBuffer where
  m_size := b.m_size
  m_buffer := b.m_buffer ++ (b.m_segments.map (List.take segmentSize)).flatten

def getSomeData (b : SharedBuffer) (position : Nat) : List Cell :=
  if position ≥ b.m_size then []
  else
    let consecutiveSize := b.m_buffer.length
    if position < consecutiveSize then b.m_buffer.drop position
    else
      let position := position - consecutiveSize
      let segmentedSize := b.m_size - consecutiveSize
      let segment := segmentIndex position
      let positionInSegment := offsetInSegment position
      let length :=
        if segment = b.m_segments.length - 1 then segmentedSize - position
        else segmentSize - positionInSegment
      ((b.m_segments.getD segment []).drop positionInSegment).take length

end SharedBuffer

/-- The operations on a number of buffers, which are told apart by the order they were made in.
`data()` is the vector of `buffer()`. -/
inductive Operation where
  | create
  | append (index : Nat) (data : List Byte)
  | buffer (index : Nat)
  | data (index : Nat)
  | getSomeData (index position : Nat)
  | copy (index : Nat)
  | clear (index : Nat)

def perform (buffers : List SharedBuffer) : Operation → List SharedBuffer
  | .create => buffers ++ [{}]
  | .append index data => buffers.modify index (·.append data)
  | .buffer index | .data index => buffers.modify index SharedBuffer.buffer
  | .getSomeData _ _ => buffers
  | .copy index => buffers ++ (buffers[index]?.map SharedBuffer.copy).toList
  | .clear index => buffers.modify index (fun _ => {})

/-- What the buffers are for: each stands for the bytes appended since it was last cleared, and a
copy starts as its original stood. -/
def describe (contents : List (List Byte)) : Operation → List (List Byte)
  | .create => contents ++ [[]]
  | .append index data => contents.modify index (· ++ data)
  | .buffer _ | .data _ | .getSomeData _ _ => contents
  | .copy index => contents ++ contents[index]?.toList
  | .clear index => contents.modify index (fun _ => [])

/-- The buffer is observed to hold the bytes, by its size, by `getSomeData` at every position and by
`buffer` and `data`. -/
structure Shows (b : SharedBuffer) (bytes : List Byte) : Prop where
  size : b.m_size = bytes.length
  someData : ∀ position, b.getSomeData position <+: (bytes.drop position).map some
  noEarlyEnd : ∀ position < bytes.length, b.getSomeData position ≠ []
  buffer : b.buffer.m_buffer = bytes.map some

namespace SharedBuffer

/-- Every segment is full. -/
def SegmentsFull (b : SharedBuffer) : Prop :=
  b.m_size - b.m_buffer.length = b.m_segments.length * segmentSize

/-- There is a last segment and no byte is in it. -/
def LastSegmentEmpty (b : SharedBuffer) : Prop :=
  b.m_segments ≠ [] ∧ b.m_size - b.m_buffer.length ≤ (b.m_segments.length - 1) * segmentSize

end SharedBuffer

/-- A buffer is copied only when its segments are full, bytes are not appended after an empty
segment, and no size reaches the range of `unsigned`. -/
def Fits (buffers : List SharedBuffer) : Operation → Prop
  | .append index data => ∀ b ∈ buffers[index]?,
      b.m_size + data.length < 2 ^ 32 ∧ (data ≠ [] → ¬b.LastSegmentEmpty)
  | .copy index => ∀ b ∈ buffers[index]?, b.SegmentsFull
  | _ => True

end WkcBrowser.Buffer
