import WkcBrowser.WebSockets.Items

/-! The frame loop reads the frames of the buffer and tells a client that only sends of each message. -/

namespace WkcBrowser.WebSockets

open Wtf Lib.Incremental

/-- A failure, the connection or a message. -/
def Happening.isOutcome : Happening → Bool
  | .notified .didClose => false
  | .notified _ => true
  | .disconnected => false
  | .failed => true

/-- A client that only sends. -/
def sender (sends : List Happening → List (List Byte)) : Client :=
  fun trace => (sends trace).map .send

namespace WebSocketChannel

def outcomes (c : WebSocketChannel) : List Happening := c.trace.filter Happening.isOutcome

section
variable (sends : List Happening → List (List Byte))

theorem operate_sends (closeHandle : Closing → WebSocketChannel → WebSocketChannel)
    (messages : List (List Byte)) (c : WebSocketChannel) :
    ∃ size, (messages.map ClientOperation.send).foldl (operate closeHandle) c =
      { c with unhandledBufferSize := size } := by
  induction messages generalizing c with
  | nil => exact ⟨c.unhandledBufferSize, rfl⟩
  | cons message messages ih =>
    rw [List.map_cons, List.foldl_cons]
    obtain ⟨size, same⟩ := ih (operate closeHandle c (.send message))
    refine ⟨size, ?_⟩
    rw [same]
    unfold operate
    dsimp only
    split_ifs <;> rfl

theorem notify_sender (notification : Notification) (c : WebSocketChannel) :
    ∃ size, c.notify (sender sends) notification =
      { c with trace := c.trace ++ [.notified notification], unhandledBufferSize := size } := by
  unfold notify sender
  exact operate_sends _ _ _

/-- The channel is closed, and nobody is told of an outcome. -/
theorem closeHandle_sender (closing : Closing) (c : WebSocketChannel) :
    (closeHandle (sender sends) closing c).closed = true ∧
      (closeHandle (sender sends) closing c).outcomes = c.outcomes ∧
      (closeHandle (sender sends) closing c).outside = c.outside ∧
      (closeHandle (sender sends) closing c).fault = c.fault := by
  unfold closeHandle
  cases closing with
  | none => exact ⟨rfl, rfl, rfl, rfl⟩
  | some bufferedAmount =>
    dsimp only
    unfold didClose
    dsimp only
    by_cases handle : c.handle = true
    · rw [if_pos handle]
      by_cases client : c.client = true
      · rw [if_pos client]
        obtain ⟨size, same⟩ := operate_sends (fun _ c => c)
          (sends (c.trace ++ [.notified .didClose]))
          { c with
            closed := true, unhandledBufferSize := bufferedAmount, client := false, handle := false
            trace := c.trace ++ [.notified .didClose] }
        unfold sender
        rw [same]
        refine ⟨rfl, ?_, rfl, rfl⟩
        unfold outcomes
        rw [List.filter_append]
        exact List.append_nil _
      · rw [if_neg client]
        exact ⟨rfl, rfl, rfl, rfl⟩
    · rw [if_neg handle]
      exact ⟨rfl, rfl, rfl, rfl⟩

theorem fail_sender (closing : Closing) (c : WebSocketChannel) :
    (c.fail (sender sends) closing).closed = true ∧
      (c.fail (sender sends) closing).outcomes = c.outcomes ++ [.failed] ∧
      (c.fail (sender sends) closing).outside = c.outside ∧
      (c.fail (sender sends) closing).fault = c.fault := by
  obtain ⟨closed, same, rest⟩ := closeHandle_sender sends closing
    { c with trace := c.trace ++ [.failed] }
  refine ⟨closed, same.trans ?_, rest⟩
  unfold outcomes
  rw [List.filter_append]
  rfl

theorem fail_outside (closing : Closing) (c : WebSocketChannel) :
    (c.fail (sender sends) closing).outside = c.outside := (fail_sender sends closing c).2.2.1

theorem readFrames_cons (client : Client) (side : ClientSide) (closing : Closing) (end_ : Nat)
    (c : WebSocketChannel) (frameByte : Byte) (p : List Byte) :
    readFrames client side closing end_ c (frameByte :: p) =
      match readFrame end_ frameByte p with
      | .overflow => (c.fail client closing, none)
      | .wild => ({ c with fault := some .wild }, none)
      | .incomplete => (c, some (frameByte :: p))
      | .frame message rest =>
        let taken := { c with
          processed := c.processed ++ (frameByte :: p).take ((frameByte :: p).length - rest.length) }
        match message with
        | none => readFrames client side closing end_ taken rest
        | some bytes =>
          if c.client then
            readFrames client side closing end_
              (taken.notify client (.didReceiveMessage (side.decode bytes))) rest
          else ({ c with fault := some .nullClient }, none) := by
  rw [readFrames]
  split
  · rename_i read
    rw [read]
  · rename_i read
    rw [read]
  · rename_i read
    rw [read]
  · rename_i message rest read
    simp only [read]
    cases message <;> rfl

end

end WebSocketChannel

/-- A frame begins at the suffix. -/
inductive FrameAt : List Byte → List Byte → Prop
  | here (input : List Byte) : FrameAt input input
  | later {frameByte : Byte} {p rest suffix : List Byte} {message : Option (List Byte)}
      (frame : readFrame 0 frameByte p = .frame message rest) (behind : FrameAt rest suffix) :
      FrameAt (frameByte :: p) suffix

/-- No length frame reaches beyond the end of the address space. -/
def FramesFit (end_ : Nat) (input : List Byte) : Prop :=
  ∀ frameByte p, FrameAt input (frameByte :: p) → LengthFits end_ frameByte p

section
variable {end_ : Nat} {frameByte : Byte} {p rest : List Byte} {message : Option (List Byte)}

theorem framesFit_nil : FramesFit end_ [] := by
  intro frameByte p there
  cases there

theorem framesFit_cons : FramesFit end_ (frameByte :: p) ↔ LengthFits end_ frameByte p ∧
    ∀ message rest, readFrame 0 frameByte p = .frame message rest → FramesFit end_ rest := by
  constructor
  · intro fit
    exact ⟨fit _ _ (.here _), fun message rest frame _ _ there => fit _ _ (.later frame there)⟩
  · rintro ⟨first, others⟩ frameByte' p' there
    cases there with
    | here => exact first
    | later frame behind => exact others _ _ frame _ _ behind

end

namespace WebSocketChannel

/-- What the frame loop makes of a channel: it has read these items. -/
structure Followed (c : WebSocketChannel) (items : List (List Happening)) (s : Phase)
    (rest : List Byte) (result : WebSocketChannel × Option (List Byte)) : Prop where
  outcomes : result.1.outcomes = c.outcomes ++ items.flatten
  outside : result.1.outside = c.outside
  fault : result.1.fault = c.fault
  ends : result.2 = some rest ∧ s = .frames ∧ result.1.client = c.client ∧
      result.1.closed = c.closed ∧ result.1.handshake = c.handshake ∧ result.1.buffer = c.buffer ∨
    result.2 = none ∧ s = .beyond ∧ result.1.closed = true

variable (sends : List Happening → List (List Byte)) (side : ClientSide) (closing : Closing)
  {end_ : Nat}

theorem readFrames_follows (c : WebSocketChannel) (nextFrame : List Byte)
    (fit : FramesFit end_ nextFrame) (live : c.client = true) :
    ∃ items s rest, Reads (nextItem side) .frames nextFrame items s rest ∧
      Followed c items s rest (readFrames (sender sends) side closing end_ c nextFrame) := by
  induction length : nextFrame.length using Nat.strong_induction_on generalizing c nextFrame with
  | _ n ih =>
    cases nextFrame with
    | nil =>
      refine ⟨[], .frames, [], .waits rfl, ?_⟩
      rw [readFrames]
      exact ⟨(List.append_nil _).symm, rfl, rfl, .inl ⟨rfl, rfl, rfl, rfl, rfl, rfl⟩⟩
    | cons frameByte p =>
      obtain ⟨fits, others⟩ := framesFit_cons.mp fit
      have item := nextItem_frames side frameByte p
      rw [readFrames_cons, readFrame_fits fits]
      cases read : readFrame 0 frameByte p with
      | overflow =>
        rw [read] at item
        obtain ⟨closed, told, outside, fault⟩ := fail_sender sends closing c
        refine ⟨[[.failed]], .beyond, _, .item item (.waits rfl), ?_⟩
        exact ⟨told, outside, fault, .inr ⟨rfl, rfl, closed⟩⟩
      | wild => exact absurd (lengthFits_zero frameByte p) (readFrame_wild_iff.mp read)
      | incomplete =>
        rw [read] at item
        exact ⟨[], .frames, _, .waits item, (List.append_nil _).symm, rfl, rfl,
          .inl ⟨rfl, rfl, rfl, rfl, rfl, rfl⟩⟩
      | frame message rest =>
        rw [read] at item
        dsimp only at item ⊢
        have suffix := readFrame_suffix read
        have shorter := suffix.length_le
        have behind : (frameByte :: p).drop (p.length + 1 - rest.length) = rest :=
          (List.suffix_iff_eq_drop.mp (suffix.trans (List.suffix_cons _ _))).symm
        cases message with
        | none =>
          obtain ⟨items, s, rest', reads, followed⟩ := ih rest.length
            (by rw [← length, List.length_cons]; omega)
            { c with
              processed := c.processed ++ (frameByte :: p).take ((frameByte :: p).length - rest.length) }
            rest (others _ _ read) live rfl
          refine ⟨[] :: items, s, rest', .item item (by rw [behind]; exact reads), ?_⟩
          exact ⟨followed.outcomes, followed.outside, followed.fault, followed.ends⟩
        | some bytes =>
          dsimp only
          rw [if_pos live]
          obtain ⟨size, same⟩ := notify_sender sends (.didReceiveMessage (side.decode bytes))
            { c with
              processed := c.processed ++ (frameByte :: p).take ((frameByte :: p).length - rest.length) }
          obtain ⟨items, s, rest', reads, followed⟩ := ih rest.length
            (by rw [← length, List.length_cons]; omega) (notify (sender sends) _
              (.didReceiveMessage (side.decode bytes))) rest (others _ _ read)
            (by rw [same]; exact live) rfl
          rw [same] at followed ⊢
          refine ⟨_ :: items, s, rest', .item item (by rw [behind]; exact reads), ?_⟩
          refine ⟨followed.outcomes.trans ?_, followed.outside, followed.fault, followed.ends⟩
          unfold outcomes
          dsimp only
          rw [List.filter_append, List.flatten_cons, List.append_assoc]
          rfl

theorem readFrames_outside (c : WebSocketChannel) (nextFrame : List Byte) :
    (readFrames (sender sends) side closing end_ c nextFrame).1.outside = c.outside := by
  induction length : nextFrame.length using Nat.strong_induction_on generalizing c nextFrame with
  | _ n ih =>
    cases nextFrame with
    | nil => rw [readFrames]
    | cons frameByte p =>
      rw [readFrames_cons]
      cases read : readFrame end_ frameByte p with
      | overflow => exact (fail_sender sends closing c).2.2.1
      | wild | incomplete => rfl
      | frame message rest =>
        have shorter := (readFrame_suffix read).length_le
        have less : rest.length < n := by
          rw [← length, List.length_cons]
          omega
        dsimp only
        cases message with
        | none => exact ih rest.length less _ rest rfl
        | some bytes =>
          dsimp only
          split_ifs
          · obtain ⟨size, same⟩ := notify_sender sends
              (.didReceiveMessage (side.decode bytes))
              { c with
                processed :=
                  c.processed ++ (frameByte :: p).take ((frameByte :: p).length - rest.length) }
            rw [ih rest.length less _ rest rfl, same]
          · rfl

/-- A frame that does not fit ends the program. -/
theorem readFrames_wild (c : WebSocketChannel) (nextFrame : List Byte)
    (unfit : ¬FramesFit end_ nextFrame) (live : c.client = true) :
    (readFrames (sender sends) side closing end_ c nextFrame).1.fault = some .wild := by
  induction length : nextFrame.length using Nat.strong_induction_on generalizing c nextFrame with
  | _ n ih =>
    cases nextFrame with
    | nil => exact absurd framesFit_nil unfit
    | cons frameByte p =>
      rw [readFrames_cons]
      by_cases fits : LengthFits end_ frameByte p
      · rw [readFrame_fits fits]
        rw [framesFit_cons, not_and] at unfit
        have later := unfit fits
        simp only [not_forall] at later
        obtain ⟨message, rest, read, unfit'⟩ := later
        have shorter := (readFrame_suffix read).length_le
        rw [read]
        dsimp only
        cases message with
        | none => exact ih rest.length (by rw [← length, List.length_cons]; omega) _ rest unfit' live rfl
        | some bytes =>
          dsimp only
          rw [if_pos live]
          obtain ⟨size, same⟩ := notify_sender sends (.didReceiveMessage (side.decode bytes))
            { c with
              processed := c.processed ++ (frameByte :: p).take ((frameByte :: p).length - rest.length) }
          exact ih rest.length (by rw [← length, List.length_cons]; omega) _ rest unfit'
            (by rw [same]; exact live) rfl
      · rw [readFrame_wild_iff.mpr fits]

end WebSocketChannel

end WkcBrowser.WebSockets
