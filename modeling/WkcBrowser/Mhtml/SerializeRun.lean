import WkcBrowser.Lib.Drain
import WkcBrowser.Mhtml.SerializeWalk
import WkcBrowser.Mhtml.SerializeCall

/-! Runs of `contentSerializeProgress`: what successive buffers deliver together, against what one
large buffer delivers. -/

namespace WkcBrowser.Mhtml
open Wtf Lib

namespace Serializer

theorem Holds.withLength {P : List ArchiveResource} {s : Serializer} (length : Nat)
    (holds : Holds P s) : Holds P { s with bufferLen := length } := by
  cases P <;> exact holds

theorem Holds.emptied {P : List ArchiveResource} {s : Serializer} (holds : Holds P s) :
    Holds P { s with buffer := [] } := by
  cases P <;> exact holds

@[simp] theorem left_withLength (P : List ArchiveResource) (s : Serializer) (length : Nat) :
    left P { s with bufferLen := length } = left P s := by
  cases P <;> rfl

@[simp] theorem left_emptied (P : List ArchiveResource) (s : Serializer) :
    left P { s with buffer := [] } = left P s := by
  cases P <;> rfl

theorem Holds.notError {P : List ArchiveResource} {s : Serializer} (holds : Holds P s) :
    s.status ≠ .stateError := by
  cases P with
  | nil => rcases holds.2 with ⟨status, -⟩ | ⟨status, -⟩ <;> simp [status]
  | cons resource more =>
    intro error
    have ready := holds.2.1
    simp [Ready, error] at ready

theorem Holds.nil_of_end {P : List ArchiveResource} {s : Serializer} (holds : Holds P s)
    (ended : s.status = .stateEnd) : P = [] := by
  cases P with
  | nil => rfl
  | cons resource more =>
    have ready := holds.2.1
    simp [Ready, ended] at ready

theorem left_of_end {s : Serializer} (holds : Holds [] s) (ended : s.status = .stateEnd) :
    left [] s = [] := by
  rcases holds.2 with ⟨status, -⟩ | ⟨-, data⟩
  · simp [status] at ended
  · simp [left, rest, data]

/-- Text is left until the end is reached. -/
theorem Holds.end_of_left {P : List ArchiveResource} {s : Serializer} (holds : Holds P s)
    (nothing : left P s = []) : s.status = .stateEnd := by
  cases P with
  | nil =>
    rcases holds.2 with ⟨-, open_⟩ | ⟨status, -⟩
    · have length := rest_length s
      rw [show s.rest = [] from nothing, List.length_nil] at length
      omega
    · exact status
  | cons resource more =>
    have ready := holds.2.1
    have content := holds.2.2 resource (by simp)
    have none_ := (List.append_eq_nil_iff.mp nothing).1
    have length := rest_length s
    cases status : s.status <;>
      simp [todo, status, content, partText] at none_ <;> simp [Ready, status] at ready
    simp [none_] at length
    omega

end Serializer

section
variable (archive : MHTMLWebArchive)

/-- One call as a step of a run; a call that returns `-1` delivers nothing. -/
def progress (length : Nat) (s : Serializer) : List Byte × Serializer :=
  ((contentSerializeProgress archive length s).1.getD [],
    (contentSerializeProgress archive length s).2)

/-- The parts the serializer writes before it takes itself to be done. -/
def writtenParts : List ArchiveResource :=
  (newResources [] archive.resources).take (caculateItems archive (0, [])).1

def isMultipart : Bool := decide (1 < (caculateItems archive (0, [])).1)

/-- The serialized archive. -/
def archiveText : List Byte :=
  makeMessageHeader archive.mainResource.mimeType (isMultipart archive) ++
    (partsText (isMultipart archive) (writtenParts archive) ++ closingText (isMultipart archive))

/-- How many bytes are written when the content of part `i` ends. -/
def contentEnd (i : Nat) : Nat :=
  (makeMessageHeader archive.mainResource.mimeType (isMultipart archive)).length +
    (partsText (isMultipart archive) ((writtenParts archive).take (i + 1))).length

/-- The parts pending in a state of the serializer. -/
def pendingParts (s : Serializer) : List ArchiveResource :=
  (newResources s.uniqueSubresources archive.resources).take (s.items + 1 - s.curItem)

def textLeft (s : Serializer) : List Byte := s.left (pendingParts archive s)

/-- What holds between the calls of a run in which no call failed. -/
structure InRun (P : List ArchiveResource) (s : Serializer) : Prop where
  holds : s.Holds P
  pending : s.Pending archive.resources P
  handed : s.buffer = []
  counted : s.items = (caculateItems archive (0, [])).1

end

namespace InRun
variable {archive : MHTMLWebArchive} {P : List ArchiveResource} {s : Serializer}

theorem parts (run : InRun archive P s) : pendingParts archive s = P := by
  cases P with
  | nil =>
    have beyond := run.holds.1
    rw [pendingParts, beyond, Nat.sub_self, List.take_zero]
  | cons resource more =>
    have counted := run.holds.1
    have notEnd : s.status ≠ .stateEnd := fun ended => by
      simpa using run.holds.nil_of_end ended
    have found := (run.pending.resolve_left notEnd).1
    have number : s.items + 1 - s.curItem = (resource :: more).length := by
      rw [List.length_cons]
      omega
    rw [pendingParts, number, ← List.prefix_iff_eq_take.mp found]

theorem text (run : InRun archive P s) : textLeft archive s = s.left P := by
  rw [textLeft, run.parts]

end InRun

/-- The three ways a call can go, by what the buffer's length is against the text that is left. -/
inductive ProgressOutcome (archive : MHTMLWebArchive) (P : List ArchiveResource) (length : Nat)
    (s : Serializer) : Prop
  | clean (i : Nat) (within : i ≤ P.length)
      (run : InRun archive (P.drop i) (progress archive length s).2)
      (bytes : (progress archive length s).1 = (s.left P).take length)
      (remaining : (progress archive length s).2.left (P.drop i) = (s.left P).drop length)
      (ends : (s.left P).length < length → (progress archive length s).2.status = .stateEnd)
      (passed : ∀ j < i, (s.left P).length <
        length + (Serializer.behind s.multipart P j).length)
      (ahead : ∀ j, i ≤ j → j < P.length →
        length + (Serializer.behind s.multipart P j).length < (s.left P).length)
      (urls : ∀ part ∈ P.take i, part.url ≠ [])
  | cut (i : Nat) (within : i < P.length)
      (run : InRun archive (P.drop i) (progress archive length s).2)
      (exact_ : length + (Serializer.behind s.multipart P i).length = (s.left P).length)
      (bytes : (progress archive length s).1 = (s.left P).take length)
      (regains : (s.left P).length < length + ((progress archive length s).2.left (P.drop i)).length)
  | failed (part : ArchiveResource) (member : part ∈ P) (noUrl : part.url = [])
      (error : (progress archive length s).2.status = .stateError)

open Serializer

theorem progress_of_status {archive : MHTMLWebArchive} {length : Nat} {s s' : Serializer}
    (call : serializeResources archive.resources { s with bufferLen := length } = s')
    (working : s'.status ≠ .stateError) (started : s'.status ≠ .makeMessageHeader) :
    progress archive length s = (s'.buffer, { s' with buffer := [] }) := by
  have run : contentSerializeProgress archive length s =
      (some s'.buffer, { s' with buffer := [] }) := by
    simp only [contentSerializeProgress, serializeTree_eq, call]
    exact if_pos ⟨working, started⟩
  rw [progress, run]
  rfl

theorem progress_outcome {archive : MHTMLWebArchive} {P : List ArchiveResource} {s : Serializer}
    (run : InRun archive P s) (length : Nat) (positive : 0 < length) :
    ProgressOutcome archive P length s := by
  obtain ⟨holds, pending, handed, counted⟩ := run
  have outcome : CallOutcome P { s with bufferLen := length }
      (serializeResources archive.resources { s with bufferLen := length }) := by
    cases P with
    | nil => exact serializeResources_closing _ (holds.withLength length) positive pending
    | cons resource more =>
      have notEnd : s.status ≠ .stateEnd := fun ended => by simpa using holds.nil_of_end ended
      exact serializeResources_outcome _ (by simp) (holds.withLength length) positive
        (pending.resolve_left notEnd).1
  have handedOver : ({ s with bufferLen := length } : Serializer).buffer = [] := handed
  generalize walk : serializeResources archive.resources { s with bufferLen := length } = t at outcome
  cases outcome with
  | clean i within _ moves holds' pending' started stops passed ahead urls =>
    have call := progress_of_status walk holds'.notError started
    obtain ⟨written, buffer, room, text, items⟩ := moves
    rw [left_withLength] at text passed ahead
    rw [handedOver, List.nil_append] at buffer
    simp only at room items
    have taken : written = (s.left P).take length ∧ t.left (P.drop i) = (s.left P).drop length := by
      rcases stops with full | ended
      · have exact_ : written.length = length := by omega
        rw [text, ← exact_, List.take_left, List.drop_left]
        exact ⟨rfl, rfl⟩
      · have none_ := holds'.nil_of_end ended
        rw [none_] at holds' text ⊢
        rw [left_of_end holds' ended, List.append_nil] at text
        rw [left_of_end holds' ended, text, List.take_of_length_le (by omega),
          List.drop_of_length_le (by omega)]
        exact ⟨rfl, rfl⟩
    refine .clean i within ?_ ?_ ?_ ?_ passed ahead urls
    · rw [call]
      exact ⟨holds'.emptied, pending' _ pending, rfl, items.trans counted⟩
    · rw [call, ← taken.1]
      exact buffer
    · rw [call, left_emptied, taken.2]
    · intro long
      rw [call]
      refine stops.resolve_left fun full => ?_
      have lengths := congrArg List.length text
      rw [List.length_append] at lengths
      omega
  | cut i within _ exact_ buffer regains items holds' pending' started =>
    have call := progress_of_status walk holds'.notError started
    rw [left_withLength] at exact_ buffer regains
    rw [handedOver, List.nil_append] at buffer
    refine .cut i within ?_ exact_ ?_ ?_
    · rw [call]
      exact ⟨holds'.emptied, pending' _ pending, rfl, items.trans counted⟩
    · rw [call]
      exact buffer
    · rw [call, left_emptied]
      exact regains
  | failed part member noUrl _ error =>
    refine .failed part member noUrl ?_
    simp only [progress, contentSerializeProgress, serializeTree_eq, walk, error]
    simp [error]

end WkcBrowser.Mhtml
