import WkcBrowser.Mhtml.Archive

/-! The resumable serializer of `MHTMLWebArchive`. `serializeResource` is one `switch` whose cases
fall through to the next; each case stores the state it falls into before it does so, hence falling
through and dispatching again on `m_status` are the same. `stage` is one case of the switch and
`serializeResource` goes from case to case until one of them leaves the function. -/

namespace WkcBrowser.Mhtml
open Wtf

/-- `SERIALIZE_STATE_*` -/
inductive SerializeState where
  | stateError
  | makeMessageHeader
  | writeMessageHeader
  | makeBoundary
  | writeBoundary
  | makePartHeader
  | writePartHeader
  | makeContent
  | writeContent
  | stateEnd
deriving DecidableEq, Repr

/-- The members of the root archive that drive serialization. `buffer` holds the bytes written to
`m_buffer` so far, so `m_buffer_off` is its length, and `data` is `m_data` with `m_data_len`. -/
structure Serializer where
  status : SerializeState := .makeMessageHeader
  data : Option (List Byte) := none
  dataOff : Nat := 0
  buffer : List Byte := []
  bufferLen : Nat := 0
  items : Nat := 0
  curItem : Nat := 1
  uniqueSubresources : List Text := []
deriving DecidableEq, Repr

namespace Serializer

def dataLen (s : Serializer) : Nat := (s.data.getD []).length

def multipart (s : Serializer) : Bool := decide (1 < s.items)

/-- The block every write case runs: copy as much of `m_data` as the buffer takes. -/
def writeData (s : Serializer) : Serializer :=
  let nwrite := min s.bufferLen (s.dataLen - s.dataOff)
  { s with
    buffer := s.buffer ++ ((s.data.getD []).drop s.dataOff).take nwrite
    bufferLen := s.bufferLen - nwrite
    dataOff := s.dataOff + nwrite }

/-- `m_buffer_len == 0 || m_status < 0 || m_status == SERIALIZE_STATE_END` -/
def halted (s : Serializer) : Bool :=
  decide (s.bufferLen = 0) || decide (s.status = .stateError) || decide (s.status = .stateEnd)

end Serializer

/-- How a case of the switch ends: in another case, or by leaving `serializeResource`. -/
inductive Flow where
  | next (s : Serializer)
  | leave (result : Bool) (s : Serializer)

def Flow.state : Flow → Serializer
  | .next s => s
  | .leave _ s => s

/-- `goto error` -/
def failed (s : Serializer) : Flow := .leave false { s with status := .stateError }

/-- The end of the `WRITE_BOUNDARY` case, once the boundary is written. -/
def boundaryWritten (s : Serializer) : Flow :=
  if s.items < s.curItem then
    .leave false { s with status := .stateEnd }
  else
    let s := { s with status := .makePartHeader, dataOff := 0 }
    if s.bufferLen = 0 then .leave false s else .next s

def stage (resource : ArchiveResource) (s : Serializer) : Flow :=
  match s.status with
  | .makeMessageHeader =>
    .next { s with
      data := some (makeMessageHeader resource.mimeType s.multipart)
      status := .writeMessageHeader
      dataOff := 0 }
  | .writeMessageHeader =>
    let s := s.writeData
    if s.dataOff ≠ s.dataLen then .leave false s else
    let s := { s with data := none, status := .makeBoundary, dataOff := 0 }
    if s.bufferLen = 0 then .leave false s else .next s
  | .makeBoundary =>
    let s := if s.multipart then
      { s with data := some (makeBoundary (decide (s.items < s.curItem))) } else s
    .next { s with status := .writeBoundary, dataOff := 0 }
  | .writeBoundary =>
    if s.data.isSome then
      let s := s.writeData
      if s.dataOff ≠ s.dataLen then .leave false s else
      boundaryWritten { s with data := none }
    else boundaryWritten s
  | .makePartHeader =>
    let header := makePartHeader resource
    if header.isEmpty then failed s else
    .next { s with data := some header, status := .writePartHeader, dataOff := 0 }
  | .writePartHeader =>
    let s := s.writeData
    if s.dataOff ≠ s.dataLen then .leave false s else
    let s := { s with data := none, status := .makeContent, dataOff := 0 }
    if s.bufferLen = 0 then .leave false s else .next s
  | .makeContent =>
    if resource.data.isEmpty then failed s else
    .next { s with data := some resource.data, status := .writeContent, dataOff := 0 }
  | .writeContent =>
    let s := s.writeData
    if s.dataOff ≠ s.dataLen then .leave false s else
    let s := { s with data := none, status := .makeBoundary, dataOff := 0 }
    -- a full buffer leaves here without counting the item
    if s.bufferLen = 0 then .leave false s else
    let s := { s with curItem := s.curItem + 1 }
    if s.items < s.curItem then .next s else .leave true s
  | .stateEnd => .leave true s
  | .stateError => failed s

def serializeStages : Nat → ArchiveResource → Serializer → Bool × Serializer
  | 0, _, s => (false, s)
  | fuel + 1, resource, s =>
    match stage resource s with
    | .next s' => serializeStages fuel resource s'
    | .leave result s' => (result, s')

/-- From the message header to the closing boundary a call passes at most ten cases. -/
def serializeResource (resource : ArchiveResource) (s : Serializer) : Bool × Serializer :=
  serializeStages 10 resource s

def serializeResourceIfNew (resource : ArchiveResource) (s : Serializer) : Serializer :=
  if resource.data.isEmpty then s else
  if resource.url ∈ s.uniqueSubresources then s else
  match serializeResource resource s with
  | (true, s') => { s' with uniqueSubresources := resource.url :: s'.uniqueSubresources }
  | (false, s') => s'

/-- The loop over the subresources, which returns early once the serializer halts. -/
def serializeResources : List ArchiveResource → Serializer → Serializer
  | [], s => s
  | resource :: rest, s =>
    let s := serializeResourceIfNew resource s
    if s.halted then s else serializeResources rest s

mutual

def serializeTree : MHTMLWebArchive → Serializer → Serializer
  | .mk main subresources subframes, s =>
    let s := serializeResourceIfNew main s
    if s.halted then s else
    let s := serializeResources subresources s
    if s.halted then s else serializeSubframes subframes s

def serializeSubframes : List MHTMLWebArchive → Serializer → Serializer
  | [], s => s
  | archive :: rest, s =>
    let s := serializeTree archive s
    if s.halted then s else serializeSubframes rest s

end

/-- One turn of the loop of `caculateItems` over the subresources. -/
def caculateResource : Nat × List Text → ArchiveResource → Nat × List Text
  | (items, unique), resource =>
    if !resource.data.isEmpty && !decide (resource.url ∈ unique) then
      (items + 1, resource.url :: unique)
    else (items, unique)

mutual

/-- Counts the parts into `m_items`; the second component is the set of URLs seen. -/
def caculateItems : MHTMLWebArchive → Nat × List Text → Nat × List Text
  | .mk main subresources subframes, (items, unique) =>
    if main.data.isEmpty || decide (main.url ∈ unique) then (items, unique) else
    caculateFrames subframes
      (subresources.foldl caculateResource (items + 1, main.url :: unique))

def caculateFrames : List MHTMLWebArchive → Nat × List Text → Nat × List Text
  | [], counted => counted
  | archive :: rest, counted => caculateFrames rest (caculateItems archive counted)

end

section
variable (isSupportedImageMIMEType : Text → Bool)

/-- On a newly made archive, so every member has the value its constructor gives it. -/
def contentSerializeStart (archive : MHTMLWebArchive) : Bool × Serializer :=
  let items := (caculateItems archive (0, [])).1
  let s : Serializer := { items }
  if items = 0 then (false, s) else
  if items = 1 && isSupportedImageMIMEType archive.mainResource.mimeType then (false, s) else
  (true, { s with status := .makeMessageHeader })

end

/-- One call with a buffer of the given length: what it returns (nothing for `-1`) and the state it
leaves. -/
def contentSerializeProgress (archive : MHTMLWebArchive) (length : Nat) (s : Serializer) :
    Option (List Byte) × Serializer :=
  let s := serializeTree archive { s with bufferLen := length }
  if s.status ≠ .stateError ∧ s.status ≠ .makeMessageHeader then
    (some s.buffer, { s with buffer := [] })
  else (none, s)

end WkcBrowser.Mhtml
