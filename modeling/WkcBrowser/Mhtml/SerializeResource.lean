import WkcBrowser.Mhtml.Serialize

/-! What one call of `serializeResource` does, read against the text that is still to be written.
For the parts that are pending, the current one first, `left` is that text. Each case of the switch
moves a prefix of it into the buffer; the one exception is the `WRITE_CONTENT` case when the content
ends together with the buffer. -/

namespace WkcBrowser.Mhtml
open Wtf

/-- One part as the serializer writes it, with the boundary before it. -/
def partText (multipart : Bool) (resource : ArchiveResource) : List Byte :=
  (if multipart then makeBoundary false else []) ++ (makePartHeader resource ++ resource.data)

def partsText (multipart : Bool) (resources : List ArchiveResource) : List Byte :=
  resources.flatMap (partText multipart)

def closingText (multipart : Bool) : List Byte :=
  if multipart then makeBoundary true else []

namespace Serializer

/-- The part of `m_data` that is not written yet. -/
def rest (s : Serializer) : List Byte := (s.data.getD []).drop s.dataOff

/-- What is to be written before the content of the current resource ends. -/
def todo (resource : ArchiveResource) (s : Serializer) : List Byte :=
  match s.status with
  | .makeMessageHeader =>
    makeMessageHeader resource.mimeType s.multipart ++ partText s.multipart resource
  | .writeMessageHeader => s.rest ++ partText s.multipart resource
  | .makeBoundary => partText s.multipart resource
  | .writeBoundary => s.rest ++ (makePartHeader resource ++ resource.data)
  | .makePartHeader => makePartHeader resource ++ resource.data
  | .writePartHeader => s.rest ++ resource.data
  | .makeContent => resource.data
  | .writeContent => s.rest
  | .stateEnd => []
  | .stateError => []

/-- The text left when the given parts are pending. With none of them only the closing boundary can
be left. -/
def left : List ArchiveResource → Serializer → List Byte
  | [], s => s.rest
  | resource :: more, s =>
    s.todo resource ++ (partsText s.multipart more ++ closingText s.multipart)

/-- Between two cases, and between two calls, `m_data` is there exactly in the write states, and the
header of the current resource is behind it only if the resource has a URL. -/
def Ready (resource : ArchiveResource) (s : Serializer) : Prop :=
  match s.status with
  | .makeMessageHeader => s.data = none
  | .makeBoundary => s.data = none
  | .makePartHeader => s.data = none
  | .makeContent => s.data = none ∧ resource.url ≠ []
  | .writeMessageHeader => s.dataOff < s.dataLen
  | .writePartHeader => s.dataOff < s.dataLen ∧ resource.url ≠ []
  | .writeContent => s.dataOff < s.dataLen ∧ resource.url ≠ []
  | .writeBoundary =>
    (s.multipart = true → s.dataOff < s.dataLen) ∧ (s.multipart = false → s.data = none)
  | .stateEnd => False
  | .stateError => False

/-- After the last part: the closing boundary is being written, or the end is reached. -/
def Closing (s : Serializer) : Prop :=
  s.status = .writeBoundary ∧ s.dataOff < s.dataLen ∨ s.status = .stateEnd ∧ s.data = none

/-- The state fits the list of pending parts. -/
def Holds : List ArchiveResource → Serializer → Prop
  | [], s => s.curItem = s.items + 1 ∧ s.Closing
  | resource :: more, s =>
    s.curItem + more.length = s.items ∧ s.Ready resource ∧ ∀ part ∈ resource :: more, part.data ≠ []

/-- The text moved from what was left into the buffer. -/
def Moves (P : List ArchiveResource) (s : Serializer) (P' : List ArchiveResource)
    (s' : Serializer) : Prop :=
  ∃ written, s'.buffer = s.buffer ++ written ∧ s.bufferLen = written.length + s'.bufferLen ∧
    left P s = written ++ left P' s' ∧ s'.items = s.items

theorem Moves.trans {P Q R : List ArchiveResource} {s t u : Serializer}
    (first : Moves P s Q t) (second : Moves Q t R u) : Moves P s R u := by
  obtain ⟨v, buffer, room, text, items⟩ := first
  obtain ⟨w, buffer', room', text', items'⟩ := second
  refine ⟨v ++ w, ?_, ?_, ?_, items'.trans items⟩
  · rw [buffer', buffer, List.append_assoc]
  · rw [List.length_append]
    omega
  · rw [text, text', List.append_assoc]

/-- A step that writes nothing and only stores the next block or state. -/
theorem Moves.silent {P Q : List ArchiveResource} {s t : Serializer}
    (buffer : t.buffer = s.buffer) (room : t.bufferLen = s.bufferLen)
    (text : left P s = left Q t) (items : t.items = s.items) : Moves P s Q t :=
  ⟨[], by simp [buffer], by simp [room], by simpa using text, items⟩

theorem rest_length (s : Serializer) : s.rest.length = s.dataLen - s.dataOff := by
  simp [rest, dataLen]

@[simp] theorem writeData_buffer (s : Serializer) :
    s.writeData.buffer = s.buffer ++ s.rest.take (min s.bufferLen s.rest.length) := by
  simp only [writeData, rest_length]
  rfl

@[simp] theorem writeData_bufferLen (s : Serializer) :
    s.writeData.bufferLen = s.bufferLen - min s.bufferLen s.rest.length := by
  simp [writeData, rest_length]

@[simp] theorem writeData_dataOff (s : Serializer) :
    s.writeData.dataOff = s.dataOff + min s.bufferLen s.rest.length := by
  simp [writeData, rest_length]

@[simp] theorem writeData_data (s : Serializer) : s.writeData.data = s.data := rfl
@[simp] theorem writeData_dataLen (s : Serializer) : s.writeData.dataLen = s.dataLen := rfl
@[simp] theorem writeData_status (s : Serializer) : s.writeData.status = s.status := rfl
@[simp] theorem writeData_multipart (s : Serializer) : s.writeData.multipart = s.multipart := rfl
theorem writeData_rest (s : Serializer) :
    s.writeData.rest = s.rest.drop (min s.bufferLen s.rest.length) := by
  simp only [rest, writeData_data, writeData_dataOff, List.drop_drop]

/-- A write case either empties `m_data` or fills the buffer. -/
theorem writeData_cases (s : Serializer) (open_ : s.dataOff < s.dataLen) :
    (s.rest.length ≤ s.bufferLen ∧ s.writeData.dataOff = s.dataLen ∧
      s.writeData.buffer = s.buffer ++ s.rest ∧
      s.bufferLen = s.rest.length + s.writeData.bufferLen) ∨
    (s.bufferLen < s.rest.length ∧ s.writeData.dataOff < s.dataLen ∧
      s.writeData.bufferLen = 0 ∧ s.writeData.buffer = s.buffer ++ s.rest.take s.bufferLen ∧
      s.writeData.rest = s.rest.drop s.bufferLen) := by
  have lengths := rest_length s
  rcases Nat.lt_or_ge s.bufferLen s.rest.length with short | enough
  · right
    have least : min s.bufferLen s.rest.length = s.bufferLen := by omega
    refine ⟨short, ?_, ?_, ?_, ?_⟩
    · rw [writeData_dataOff, least]
      omega
    · rw [writeData_bufferLen, least, Nat.sub_self]
    · rw [writeData_buffer, least]
    · rw [writeData_rest, least]
  · left
    have least : min s.bufferLen s.rest.length = s.rest.length := by omega
    refine ⟨enough, ?_, ?_, ?_⟩
    · rw [writeData_dataOff, least]
      omega
    · rw [writeData_buffer, least, List.take_length]
    · rw [writeData_bufferLen, least]
      omega

/-- How a call for the first pending resource ends, by the room in the buffer. -/
inductive Outcome (resource : ArchiveResource) (more : List ArchiveResource) (s : Serializer) :
    Bool → Serializer → Prop
  | paused (s' : Serializer) (short : s.bufferLen < (s.todo resource).length)
      (moves : Moves (resource :: more) s (resource :: more) s')
      (holds : Holds (resource :: more) s') (full : s'.bufferLen = 0) :
      Outcome resource more s false s'
  | cut (s' : Serializer) (exact_ : s.bufferLen = (s.todo resource).length)
      (buffer : s'.buffer = s.buffer ++ s.todo resource)
      (again : s'.status = .makeBoundary) (unchanged : s'.multipart = s.multipart)
      (items : s'.items = s.items) (holds : Holds (resource :: more) s') (full : s'.bufferLen = 0) :
      Outcome resource more s false s'
  | finished (s' : Serializer) (long : (s.todo resource).length < s.bufferLen)
      (moves : Moves (resource :: more) s more s') (holds : Holds more s')
      (others : more ≠ []) (room : 0 < s'.bufferLen) (hasUrl : resource.url ≠ []) :
      Outcome resource more s true s'
  | closed (s' : Serializer) (long : (s.todo resource).length < s.bufferLen)
      (moves : Moves (resource :: more) s more s') (holds : Holds more s')
      (last : more = []) (stopped : s'.halted = true) (hasUrl : resource.url ≠ []) :
      Outcome resource more s false s'
  | failed (s' : Serializer) (noUrl : resource.url = []) (error : s'.status = .stateError) :
      Outcome resource more s false s'

theorem multipart_eq_of_items {s s' : Serializer} (items : s'.items = s.items) :
    s'.multipart = s.multipart := by
  unfold multipart
  rw [items]

/-- While the same resource is current, what moved is a prefix of what it had to write. -/
theorem Moves.todo_length {resource : ArchiveResource} {more : List ArchiveResource}
    {s s' : Serializer} (moves : Moves (resource :: more) s (resource :: more) s') :
    (s.todo resource).length + s'.bufferLen = (s'.todo resource).length + s.bufferLen := by
  obtain ⟨written, -, room, text, items⟩ := moves
  have lengths := congrArg List.length text
  simp only [left, multipart_eq_of_items items, List.length_append] at lengths
  omega

/-- What the rest of the call does is what the whole call does. -/
theorem Outcome.after {resource : ArchiveResource} {more : List ArchiveResource}
    {s t : Serializer} {result : Bool} {s' : Serializer}
    (moves : Moves (resource :: more) s (resource :: more) t)
    (outcome : Outcome resource more t result s') : Outcome resource more s result s' := by
  have lengths := moves.todo_length
  cases outcome with
  | paused _ short moves' holds full =>
    exact .paused s' (by omega) (moves.trans moves') holds full
  | cut _ exact_ buffer again unchanged items holds full =>
    obtain ⟨written, buffered, room, text, sameItems⟩ := moves
    have whole : s.todo resource = written ++ t.todo resource := by
      have same := multipart_eq_of_items sameItems
      simp only [left, same, ← List.append_assoc, List.append_cancel_right_eq] at text
      exact text
    refine .cut s' (by omega) ?_ again (unchanged.trans (multipart_eq_of_items sameItems))
      (items.trans sameItems) holds full
    rw [buffer, buffered, whole, List.append_assoc]
  | finished _ long moves' holds others room hasUrl =>
    exact .finished s' (by omega) (moves.trans moves') holds others room hasUrl
  | closed _ long moves' holds last stopped hasUrl =>
    exact .closed s' (by omega) (moves.trans moves') holds last stopped hasUrl
  | failed _ noUrl error => exact .failed s' noUrl error

/-- The number of cases a call can still pass, the closing boundary included. -/
def casesLeft : SerializeState → Nat
  | .makeMessageHeader => 10
  | .writeMessageHeader => 9
  | .makeBoundary => 8
  | .writeBoundary => 7
  | .makePartHeader => 6
  | .writePartHeader => 5
  | .makeContent => 4
  | .writeContent => 3
  | .stateEnd => 1
  | .stateError => 1

theorem partText_ne_nil (multipart : Bool) {resource : ArchiveResource}
    (content : resource.data ≠ []) : partText multipart resource ≠ [] := by
  simp [partText, content]

/-- In a write state the block at hand comes first and the later text does not depend on it. -/
theorem todo_write {resource : ArchiveResource} {s : Serializer} {later : List Byte}
    (writing : s.todo resource = s.rest ++ later)
    (status : s.status = .writeMessageHeader ∨ s.status = .writeBoundary ∨
      s.status = .writePartHeader ∨ s.status = .writeContent) :
    s.writeData.todo resource = s.writeData.rest ++ later := by
  rcases status with status | status | status | status <;>
    simp only [todo, writeData_status, status, writeData_multipart] at writing ⊢
  · rw [List.append_cancel_left writing]
  · rw [List.append_cancel_left writing]
  · rw [List.append_cancel_left writing]
  · rw [List.self_eq_append_right.mp writing, List.append_nil]

/-- A write case that the buffer ends: the call pauses inside the block. -/
theorem paused_inside {resource : ArchiveResource} {more : List ArchiveResource}
    {s : Serializer} {later : List Byte} (holds : Holds (resource :: more) s)
    (status : s.status = .writeMessageHeader ∨ s.status = .writeBoundary ∨
      s.status = .writePartHeader ∨ s.status = .writeContent)
    (writing : s.todo resource = s.rest ++ later)
    (short : s.bufferLen < s.rest.length) (inside : s.writeData.dataOff < s.dataLen)
    (full : s.writeData.bufferLen = 0)
    (buffer : s.writeData.buffer = s.buffer ++ s.rest.take s.bufferLen)
    (remaining : s.writeData.rest = s.rest.drop s.bufferLen) :
    Outcome resource more s false s.writeData := by
  obtain ⟨counted, ready, contents⟩ := holds
  refine .paused _ ?_ ⟨s.rest.take s.bufferLen, buffer, ?_, ?_, rfl⟩ ⟨counted, ?_, contents⟩ full
  · rw [writing, List.length_append]
    omega
  · rw [full, List.length_take]
    omega
  · simp only [left, todo_write writing status, writing, remaining, writeData_multipart,
      ← List.append_assoc, List.take_append_drop]
  · rcases status with status | status | status | status <;>
      simp only [Ready, writeData_status, status, writeData_multipart, writeData_data,
        writeData_dataLen] at ready ⊢
    · exact inside
    · refine ⟨fun _ => inside, fun single => ?_⟩
      simp [dataLen, ready.2 single] at inside
    · exact ⟨inside, ready.2⟩
    · exact ⟨inside, ready.2⟩

/-- A write case that empties `m_data`, before the content: with room left it falls into the next
case, otherwise the call pauses there. -/
theorem written_before_content {resource : ArchiveResource} {more : List ArchiveResource}
    {s t : Serializer} {later : List Byte} (holds : Holds (resource :: more) s)
    (writing : s.todo resource = s.rest ++ later) (nonempty : later ≠ [])
    (next : t.todo resource = later) (ready : t.Ready resource) (room : s.bufferLen = s.rest.length + t.bufferLen)
    (buffer : t.buffer = s.buffer ++ s.rest) (items : t.items = s.items)
    (curItem : t.curItem = s.curItem) :
    Moves (resource :: more) s (resource :: more) t ∧ Holds (resource :: more) t ∧
      (t.bufferLen = 0 → Outcome resource more s false t) := by
  obtain ⟨counted, -, contents⟩ := holds
  have moves : Moves (resource :: more) s (resource :: more) t := by
    refine ⟨s.rest, buffer, room, ?_, items⟩
    simp only [left, writing, next, multipart_eq_of_items items, List.append_assoc]
  have kept : Holds (resource :: more) t := ⟨by omega, ready, contents⟩
  refine ⟨moves, kept, fun full => .paused _ ?_ moves kept full⟩
  have some_ := List.length_pos_of_ne_nil nonempty
  rw [writing, List.length_append]
  omega

/-- What one case does before the content: it falls into a later case with room left, or the call
ends there. -/
def StageGoes (resource : ArchiveResource) (more : List ArchiveResource) (s : Serializer)
    (flow : Flow) : Prop :=
  (∃ t, flow = .next t ∧ Moves (resource :: more) s (resource :: more) t ∧
    Holds (resource :: more) t ∧ 0 < t.bufferLen ∧ casesLeft t.status < casesLeft s.status) ∨
  (∃ t, flow = .leave false t ∧ Outcome resource more s false t)

theorem stage_makeMessageHeader {resource : ArchiveResource} {more : List ArchiveResource}
    {s : Serializer} (holds : Holds (resource :: more) s) (room : 0 < s.bufferLen)
    (status : s.status = .makeMessageHeader) : StageGoes resource more s (stage resource s) := by
  obtain ⟨counted, -, contents⟩ := holds
  simp only [stage, status]
  refine .inl ⟨_, rfl, .silent rfl rfl ?_ rfl, ⟨counted, ?_, contents⟩, room, ?_⟩
  · simp [left, todo, status, rest, multipart]
  · simp only [Ready, dataLen, Option.getD_some, makeMessageHeader_length, messageHeaderLength]
    split <;> omega
  · simp [casesLeft, status]

theorem stage_writeMessageHeader {resource : ArchiveResource} {more : List ArchiveResource}
    {s : Serializer} (holds : Holds (resource :: more) s)
    (status : s.status = .writeMessageHeader) : StageGoes resource more s (stage resource s) := by
  have ready := holds.2.1
  have content := holds.2.2 resource (by simp)
  simp only [Ready, status] at ready
  have writing : s.todo resource = s.rest ++ partText s.multipart resource := by
    simp only [todo, status]
  simp only [stage, status]
  rcases writeData_cases s ready with ⟨-, whole, buffer, moved⟩ | ⟨short, inside, full, buffer, remaining⟩
  · have step := written_before_content (t := { s.writeData with
      data := none, status := .makeBoundary, dataOff := 0 }) holds writing
      (partText_ne_nil _ content) rfl rfl moved buffer rfl rfl
    rw [if_neg (by simpa using whole)]
    split <;> rename_i left_
    · exact .inr ⟨_, rfl, step.2.2 left_⟩
    · exact .inl ⟨_, rfl, step.1, step.2.1, Nat.pos_of_ne_zero left_, by simp [casesLeft, status]⟩
  · rw [if_pos (show s.writeData.dataOff ≠ s.writeData.dataLen from Nat.ne_of_lt inside)]
    exact .inr ⟨_, rfl, paused_inside holds (.inl status) writing short inside full buffer remaining⟩

theorem stage_makeBoundary {resource : ArchiveResource} {more : List ArchiveResource}
    {s : Serializer} (holds : Holds (resource :: more) s) (room : 0 < s.bufferLen)
    (status : s.status = .makeBoundary) : StageGoes resource more s (stage resource s) := by
  obtain ⟨counted, ready, contents⟩ := holds
  simp only [Ready, status] at ready
  simp only [stage, status]
  have notLast : decide (s.items < s.curItem) = false := by
    simp only [decide_eq_false_iff_not]
    omega
  cases multi : s.multipart with
  | true =>
    simp only [if_true, notLast]
    refine .inl ⟨_, rfl, .silent rfl rfl ?_ rfl, ⟨counted, ?_, contents⟩, room, ?_⟩
    · have same : decide (1 < s.items) = true := multi
      simp [left, todo, status, rest, partText, multipart, same]
    · have same : decide (1 < s.items) = true := multi
      simp only [Ready, multipart, same, dataLen, Option.getD_some, makeBoundary_length]
      decide
    · simp [casesLeft, status]
  | false =>
    simp only [Bool.false_eq_true, if_false]
    refine .inl ⟨_, rfl, .silent rfl rfl ?_ rfl, ⟨counted, ?_, contents⟩, room, ?_⟩
    · have same : decide (1 < s.items) = false := multi
      simp [left, todo, status, rest, partText, multipart, same, ready]
    · have same : decide (1 < s.items) = false := multi
      simp [Ready, multipart, same, ready]
    · simp [casesLeft, status]

theorem boundaryWritten_pending {s : Serializer} (pending : ¬ s.items < s.curItem) :
    boundaryWritten s = if s.bufferLen = 0
      then .leave false { s with status := .makePartHeader, dataOff := 0 }
      else .next { s with status := .makePartHeader, dataOff := 0 } :=
  if_neg pending

theorem boundaryWritten_last {s : Serializer} (last : s.items < s.curItem) :
    boundaryWritten s = .leave false { s with status := .stateEnd } :=
  if_pos last

theorem stage_writeBoundary {resource : ArchiveResource} {more : List ArchiveResource}
    {s : Serializer} (holds : Holds (resource :: more) s) (room : 0 < s.bufferLen)
    (status : s.status = .writeBoundary) : StageGoes resource more s (stage resource s) := by
  have ready := holds.2.1
  have content := holds.2.2 resource (by simp)
  have counted := holds.1
  simp only [Ready, status] at ready
  have writing : s.todo resource = s.rest ++ (makePartHeader resource ++ resource.data) := by
    simp only [todo, status]
  have later : makePartHeader resource ++ resource.data ≠ [] := by simp [content]
  have pending : ¬ s.items < s.curItem := by omega
  simp only [stage, status]
  cases multi : s.multipart with
  | true =>
    have open_ := ready.1 multi
    have some_ : s.data.isSome = true := by
      cases data : s.data with
      | none => simp [dataLen, data] at open_
      | some bytes => rfl
    rw [if_pos some_]
    rcases writeData_cases s open_ with ⟨-, whole, buffer, moved⟩ | ⟨short, inside, full, buffer, remaining⟩
    · have step := written_before_content (t := { s.writeData with
        data := none, status := .makePartHeader, dataOff := 0 }) holds writing later rfl rfl moved
        buffer rfl rfl
      rw [if_neg (by simpa using whole), boundaryWritten_pending (by exact pending)]
      split <;> rename_i left_
      · exact .inr ⟨_, rfl, step.2.2 left_⟩
      · exact .inl ⟨_, rfl, step.1, step.2.1, Nat.pos_of_ne_zero left_, by simp [casesLeft, status]⟩
    · rw [if_pos (show s.writeData.dataOff ≠ s.writeData.dataLen from Nat.ne_of_lt inside)]
      exact .inr ⟨_, rfl, paused_inside holds (.inr (.inl status)) writing short inside full buffer
        remaining⟩
  | false =>
    have none_ := ready.2 multi
    have nothing : s.rest = [] := by simp [rest, none_]
    have step := written_before_content (t := { s with status := .makePartHeader, dataOff := 0 })
      holds writing later rfl none_ (by simp [nothing]) (by simp [nothing]) rfl rfl
    rw [if_neg (by simp [none_]), boundaryWritten_pending pending, if_neg (by omega)]
    exact .inl ⟨_, rfl, step.1, step.2.1, room, by simp [casesLeft, status]⟩

theorem stage_makePartHeader {resource : ArchiveResource} {more : List ArchiveResource}
    {s : Serializer} (holds : Holds (resource :: more) s) (room : 0 < s.bufferLen)
    (status : s.status = .makePartHeader) : StageGoes resource more s (stage resource s) := by
  obtain ⟨counted, -, contents⟩ := holds
  simp only [stage, status]
  rcases Decidable.em (resource.url = []) with noUrl | hasUrl
  · have nothing := (makePartHeader_eq_nil resource).mpr noUrl
    rw [if_pos (by simp [nothing])]
    exact .inr ⟨_, rfl, .failed _ noUrl rfl⟩
  · have something : makePartHeader resource ≠ [] := fun empty =>
      hasUrl ((makePartHeader_eq_nil resource).mp empty)
    rw [if_neg (by simpa using something)]
    refine .inl ⟨_, rfl, .silent rfl rfl ?_ rfl, ⟨counted, ?_, contents⟩, room, ?_⟩
    · simp [left, todo, status, rest, multipart]
    · exact ⟨by simpa [dataLen] using List.length_pos_of_ne_nil something, hasUrl⟩
    · simp [casesLeft, status]

theorem stage_writePartHeader {resource : ArchiveResource} {more : List ArchiveResource}
    {s : Serializer} (holds : Holds (resource :: more) s)
    (status : s.status = .writePartHeader) : StageGoes resource more s (stage resource s) := by
  have ready := holds.2.1
  have content := holds.2.2 resource (by simp)
  simp only [Ready, status] at ready
  have writing : s.todo resource = s.rest ++ resource.data := by simp only [todo, status]
  simp only [stage, status]
  rcases writeData_cases s ready.1 with ⟨-, whole, buffer, moved⟩ | ⟨short, inside, full, buffer, remaining⟩
  · have step := written_before_content (t := { s.writeData with
      data := none, status := .makeContent, dataOff := 0 }) holds writing content rfl ⟨rfl, ready.2⟩ moved
      buffer rfl rfl
    rw [if_neg (by simpa using whole)]
    split <;> rename_i left_
    · exact .inr ⟨_, rfl, step.2.2 left_⟩
    · exact .inl ⟨_, rfl, step.1, step.2.1, Nat.pos_of_ne_zero left_, by simp [casesLeft, status]⟩
  · rw [if_pos (show s.writeData.dataOff ≠ s.writeData.dataLen from Nat.ne_of_lt inside)]
    exact .inr ⟨_, rfl, paused_inside holds (.inr (.inr (.inl status))) writing short inside full
      buffer remaining⟩

theorem stage_makeContent {resource : ArchiveResource} {more : List ArchiveResource}
    {s : Serializer} (holds : Holds (resource :: more) s) (room : 0 < s.bufferLen)
    (status : s.status = .makeContent) : StageGoes resource more s (stage resource s) := by
  obtain ⟨counted, ready, contents⟩ := holds
  have content := contents resource (by simp)
  simp only [Ready, status] at ready
  simp only [stage, status]
  rw [if_neg (by simpa using content)]
  refine .inl ⟨_, rfl, .silent rfl rfl ?_ rfl, ⟨counted, ?_, contents⟩, room, ?_⟩
  · simp [left, todo, status, rest, multipart]
  · exact ⟨by simpa [dataLen] using List.length_pos_of_ne_nil content, ready.2⟩
  · simp [casesLeft, status]

/-- The closing boundary, from the `WRITE_BOUNDARY` case on. -/
theorem stages_closing (resource : ArchiveResource) (fuel : Nat) {s : Serializer}
    (counted : s.curItem = s.items + 1) (status : s.status = .writeBoundary)
    (open_ : s.data = none ∨ s.dataOff < s.dataLen) :
    ∃ s', serializeStages (fuel + 1) resource s = (false, s') ∧ Moves [] s [] s' ∧ Holds [] s' ∧
      s'.halted = true := by
  have last : s.items < s.curItem := by omega
  simp only [serializeStages, stage, status]
  rcases open_ with nothing | open_
  · rw [if_neg (by simp [nothing]), boundaryWritten, if_pos last]
    exact ⟨_, rfl, .silent rfl rfl (by simp [left, rest, nothing]) rfl,
      ⟨counted, .inr ⟨rfl, nothing⟩⟩, by simp [halted]⟩
  · have some_ : s.data.isSome = true := by
      cases data : s.data with
      | none => simp [dataLen, data] at open_
      | some bytes => rfl
    rw [if_pos some_]
    rcases writeData_cases s open_ with ⟨-, whole, buffer, moved⟩ | ⟨short, inside, full, buffer, remaining⟩
    · rw [if_neg (by simpa using whole), boundaryWritten_last (by exact last)]
      exact ⟨_, rfl, ⟨s.rest, buffer, moved, by simp [left, rest], rfl⟩,
        ⟨counted, .inr ⟨rfl, rfl⟩⟩, by simp [halted]⟩
    · rw [if_pos (show s.writeData.dataOff ≠ s.writeData.dataLen from Nat.ne_of_lt inside)]
      refine ⟨_, rfl, ⟨s.rest.take s.bufferLen, buffer, ?_, ?_, rfl⟩,
        ⟨counted, .inl ⟨status, inside⟩⟩, by simp only [halted, full, decide_true, Bool.true_or]⟩
      · rw [full, List.length_take]
        omega
      · simp only [left, remaining, List.take_append_drop]

/-- After the last content with room left, the closing boundary follows in the same call. -/
theorem stages_last (resource : ArchiveResource) (fuel : Nat) {s : Serializer}
    (counted : s.curItem = s.items + 1) (status : s.status = .makeBoundary) (data : s.data = none) :
    ∃ s', serializeStages (fuel + 2) resource s = (false, s') ∧ Holds [] s' ∧ s'.halted = true ∧
      ∃ written, s'.buffer = s.buffer ++ written ∧ s.bufferLen = written.length + s'.bufferLen ∧
        closingText s.multipart = written ++ left [] s' ∧ s'.items = s.items := by
  have last : decide (s.items < s.curItem) = true := by
    simp only [decide_eq_true_eq]
    omega
  rw [serializeStages, stage, status]
  cases multi : s.multipart with
  | true =>
    obtain ⟨s', run, moves, holds, stopped⟩ := stages_closing resource fuel
      (s := { s with data := some (makeBoundary true), status := .writeBoundary, dataOff := 0 })
      counted rfl (.inr (by simp [dataLen, makeBoundary_length, boundaryLineLength]))
    exact ⟨s', by simpa [last] using run, holds, stopped, by
      simpa [Moves, left, rest, closingText] using moves⟩
  | false =>
    obtain ⟨s', run, moves, holds, stopped⟩ := stages_closing resource fuel
      (s := { s with status := .writeBoundary, dataOff := 0 }) counted rfl (.inl data)
    exact ⟨s', by simpa using run, holds, stopped, by
      simpa [Moves, left, rest, closingText, data] using moves⟩

theorem partsText_cons (multipart : Bool) (part : ArchiveResource) (more : List ArchiveResource) :
    partsText multipart (part :: more) = partText multipart part ++ partsText multipart more :=
  rfl

/-- The state in which the `WRITE_CONTENT` case has emptied `m_data`. -/
def contentWritten (s : Serializer) : Serializer :=
  { s.writeData with data := none, status := .makeBoundary, dataOff := 0 }

theorem stage_writeContent (resource : ArchiveResource) {s : Serializer}
    (status : s.status = .writeContent) (whole : s.writeData.dataOff = s.dataLen) :
    stage resource s =
      if s.writeData.bufferLen = 0 then .leave false s.contentWritten
      else if s.items < s.curItem + 1 then .next { s.contentWritten with curItem := s.curItem + 1 }
      else .leave true { s.contentWritten with curItem := s.curItem + 1 } := by
  simp only [stage, status]
  rw [if_neg (by simpa using whole)]
  rfl

theorem stages_writeContent {resource : ArchiveResource} {more : List ArchiveResource}
    {s : Serializer} (fuel : Nat) (holds : Holds (resource :: more) s)
    (status : s.status = .writeContent) :
    Outcome resource more s (serializeStages (fuel + 3) resource s).1
      (serializeStages (fuel + 3) resource s).2 := by
  have counted := holds.1
  have ready := holds.2.1
  have contents := holds.2.2
  simp only [Ready, status] at ready
  have writing : s.todo resource = s.rest := by simp only [todo, status]
  rw [serializeStages]
  rcases writeData_cases s ready.1 with ⟨enough, whole, buffer, moved⟩ | ⟨short, inside, full, buffer, remaining⟩
  · rw [stage_writeContent resource status whole]
    rcases Nat.eq_zero_or_pos s.writeData.bufferLen with emptied | positive
    · simp only [if_pos emptied]
      refine .cut _ ?_ (by rw [writing]; exact buffer) rfl rfl rfl
        ⟨counted, rfl, contents⟩ emptied
      rw [writing, moved, emptied, Nat.add_zero]
    · simp only [if_neg (Nat.ne_of_gt positive)]
      have long : (s.todo resource).length < s.bufferLen := by
        rw [writing, moved]
        omega
      cases more with
      | nil =>
        have last : s.items = s.curItem := by simpa using counted.symm
        obtain ⟨s', run, holds', stopped, written, buffered, room, text, items⟩ :=
          stages_last resource fuel (s := { s.contentWritten with curItem := s.curItem + 1 })
            (congrArg (· + 1) last.symm) rfl rfl
        simp only [if_pos (show s.items < s.curItem + 1 by omega), run]
        refine .closed s' long ⟨s.rest ++ written, ?_, ?_, ?_, items⟩ holds' rfl stopped ready.2
        · rw [buffered, ← List.append_assoc, ← buffer]
          rfl
        · have roomHere : s.writeData.bufferLen = written.length + s'.bufferLen := room
          rw [List.length_append]
          omega
        · have textHere : closingText s.multipart = written ++ left [] s' := text
          rw [List.append_assoc, ← textHere]
          simp [left, writing, partsText]
      | cons part later =>
        have notLast : ¬ s.items < s.curItem + 1 := by
          rw [← counted, List.length_cons]
          omega
        simp only [if_neg notLast]
        refine .finished _ long ⟨s.rest, buffer, moved, ?_, rfl⟩
          ⟨?_, rfl, fun part member => contents part (List.mem_cons_of_mem _ member)⟩ (by simp)
          positive ready.2
        · rw [left, writing, partsText_cons, List.append_assoc]
          rfl
        · have same : s.contentWritten.items = s.items := rfl
          simp only [same, ← counted, List.length_cons]
          omega
  · simp only [stage, status,
      if_pos (show s.writeData.dataOff ≠ s.writeData.dataLen from Nat.ne_of_lt inside)]
    exact paused_inside holds (.inr (.inr (.inr status))) (by rw [writing, List.append_nil]) short
      inside full buffer remaining

theorem serializeStages_outcome {resource : ArchiveResource} {more : List ArchiveResource}
    (fuel : Nat) {s : Serializer} (holds : Holds (resource :: more) s) (room : 0 < s.bufferLen)
    (enough : casesLeft s.status ≤ fuel) :
    Outcome resource more s (serializeStages fuel resource s).1
      (serializeStages fuel resource s).2 := by
  induction fuel generalizing s with
  | zero => cases status : s.status <;> simp [casesLeft, status] at enough
  | succ fuel ih =>
    have through : StageGoes resource more s (stage resource s) →
        Outcome resource more s (serializeStages (fuel + 1) resource s).1
          (serializeStages (fuel + 1) resource s).2 := by
      rintro (⟨t, flow, moves, kept, roomAfter, fewer⟩ | ⟨t, flow, outcome⟩)
      · simp only [serializeStages, flow]
        exact (ih kept roomAfter (by omega)).after moves
      · simpa only [serializeStages, flow] using outcome
    cases status : s.status with
    | makeMessageHeader => exact through (stage_makeMessageHeader holds room status)
    | writeMessageHeader => exact through (stage_writeMessageHeader holds status)
    | makeBoundary => exact through (stage_makeBoundary holds room status)
    | writeBoundary => exact through (stage_writeBoundary holds room status)
    | makePartHeader => exact through (stage_makePartHeader holds room status)
    | writePartHeader => exact through (stage_writePartHeader holds status)
    | makeContent => exact through (stage_makeContent holds room status)
    | writeContent =>
      obtain ⟨spare, fuels⟩ : ∃ spare, fuel + 1 = spare + 3 := ⟨fuel - 2, by
        simp only [casesLeft, status] at enough
        omega⟩
      rw [fuels]
      exact stages_writeContent spare holds status
    | stateEnd => exact absurd holds.2.1 (by simp [Ready, status])
    | stateError => exact absurd holds.2.1 (by simp [Ready, status])

/-- One call of `serializeResource` for the first pending resource. -/
theorem serializeResource_outcome {resource : ArchiveResource} {more : List ArchiveResource}
    {s : Serializer} (holds : Holds (resource :: more) s) (room : 0 < s.bufferLen) :
    Outcome resource more s (serializeResource resource s).1 (serializeResource resource s).2 := by
  refine serializeStages_outcome 10 holds room ?_
  cases s.status <;> decide

/-- One call once all parts are written: it goes on with the closing boundary. -/
theorem serializeResource_closing (resource : ArchiveResource) {s : Serializer}
    (holds : Holds [] s) :
    ∃ result s', serializeResource resource s = (result, s') ∧ Moves [] s [] s' ∧ Holds [] s' ∧
      s'.halted = true ∧ (result = true → s' = s) := by
  obtain ⟨counted, ⟨status, open_⟩ | ⟨status, data⟩⟩ := holds
  · obtain ⟨s', run, moves, holds', stopped⟩ :=
      stages_closing resource 9 counted status (.inr open_)
    exact ⟨false, s', run, moves, holds', stopped, by simp⟩
  · refine ⟨true, s, ?_, .silent rfl rfl rfl rfl, ⟨counted, .inr ⟨status, data⟩⟩, ?_,
      fun _ => rfl⟩
    · simp only [serializeResource, serializeStages, stage, status]
    · simp [halted, status]

/-- Only the walk changes the set of URLs, and no case goes back to the message header. -/
def Keeps (s t : Serializer) : Prop :=
  t.uniqueSubresources = s.uniqueSubresources ∧ t.status ≠ .makeMessageHeader

theorem boundaryWritten_keeps (s : Serializer) : Keeps s (boundaryWritten s).state := by
  unfold boundaryWritten
  split
  · exact ⟨rfl, by simp [Flow.state]⟩
  · dsimp only
    split <;> exact ⟨rfl, by simp [Flow.state]⟩

theorem stage_keeps (resource : ArchiveResource) (s : Serializer) :
    Keeps s (stage resource s).state := by
  cases status : s.status <;> simp only [stage, status]
  case writeBoundary =>
    split
    · split
      · exact ⟨rfl, by simp [Flow.state, status]⟩
      · exact boundaryWritten_keeps { s.writeData with data := none }
    · exact boundaryWritten_keeps s
  case makeBoundary => split <;> exact ⟨rfl, by simp [Flow.state]⟩
  case stateEnd => exact ⟨rfl, by simp [Flow.state, status]⟩
  case writeContent =>
    split
    · exact ⟨rfl, by simp [Flow.state, status]⟩
    · split
      · exact ⟨rfl, by simp [Flow.state]⟩
      · split <;> exact ⟨rfl, by simp [Flow.state]⟩
  case writeMessageHeader | writePartHeader =>
    split
    · exact ⟨rfl, by simp [Flow.state, status]⟩
    · split <;> exact ⟨rfl, by simp [Flow.state]⟩
  case makePartHeader | makeContent => split <;> exact ⟨rfl, by simp [Flow.state, failed]⟩
  case makeMessageHeader | stateError => exact ⟨rfl, by simp [Flow.state, failed]⟩

theorem serializeStages_keeps (fuel : Nat) (resource : ArchiveResource) (s : Serializer) :
    Keeps s (serializeStages (fuel + 1) resource s).2 := by
  induction fuel generalizing s with
  | zero =>
    have once := stage_keeps resource s
    rw [serializeStages]
    cases flow : stage resource s <;> rw [flow] at once <;> exact once
  | succ fuel ih =>
    have once := stage_keeps resource s
    rw [serializeStages]
    cases flow : stage resource s with
    | leave result t =>
      rw [flow] at once
      exact once
    | next t =>
      rw [flow] at once
      exact ⟨(ih t).1.trans once.1, (ih t).2⟩

theorem serializeResource_keeps (resource : ArchiveResource) (s : Serializer) :
    Keeps s (serializeResource resource s).2 :=
  serializeStages_keeps 9 resource s

end Serializer
end WkcBrowser.Mhtml
