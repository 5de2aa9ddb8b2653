import WkcBrowser.WebSockets.ChunkIndependence

/-! Clients whose handlers close the channel. The frame loop goes on with a client that is gone, and a length
that overflows leaves the frames before it in the buffer. -/

namespace WkcBrowser.WebSockets

open Wtf Lib Lib.Incremental

namespace Happening

def IsNotification : Happening → Prop
  | .notified _ => True
  | _ => False

/-- After it the client is told nothing more. -/
def Ends : Happening → Prop
  | .notified .didClose | .disconnected => True
  | _ => False

/-- Nothing is told after the end. -/
def Quiet (trace : List Happening) : Prop :=
  trace.Pairwise fun a b => a.Ends → ¬b.IsNotification

end Happening

/-- Calls from outside a handler, and what the socket does. -/
inductive ChannelEvent where
  | didReceiveData (arrival : Arrival)
  | didClose (bufferedAmount : Nat)
  | operate (operation : ClientOperation)

namespace WebSocketChannel

def step (client : Client) (side : ClientSide) (c : WebSocketChannel) :
    ChannelEvent → WebSocketChannel
  | .didReceiveData arrival => c.receive client side arrival
  | .didClose bufferedAmount =>
    if c.fault.isSome then c else { c with closed := true }.didClose client bufferedAmount
  | .operate operation => if c.fault.isSome then c else c.operate (closeHandle client) operation

/-- The data that is appended to the buffer. -/
def appended (arrival : Arrival) : List Byte := if arrival.memory.isSome then arrival.data else []

/-- What the event should leave: no call through a null client and nothing else that ends the program but
the hash of a null name, nothing told after the end, and the frames processed are the bytes removed. -/
def Survived (client : Client) (side : ClientSide) (c : WebSocketChannel) (event : ChannelEvent) :
    Prop :=
  ((c.step client side event).fault = none ∨ (c.step client side event).fault = some .nullName) ∧
    Happening.Quiet (c.step client side event).trace ∧
    match event with
    | .didReceiveData arrival => c.closed = false → (c.step client side event).fault = none →
        c.buffer ++ appended arrival =
          (c.step client side event).processed ++ (c.step client side event).buffer
    | _ => True

/-- Every notification finds the client, whatever its handlers did before. -/
def Heard (client : Client) : WebSocketChannel → List Notification → Prop
  | _, [] => True
  | c, notification :: notifications =>
    c.client = true ∧ Heard client (c.notify client notification) notifications

def toldBy (items : List (List Happening)) : List Notification :=
  items.flatten.filterMap fun
    | .notified notification => some notification
    | _ => none

/-- The frames of an arrival, after the client has been told something. -/
def FramesSurvive (client : Client) (side : ClientSide) (end_ : Nat) (bytes : List Byte)
    (told : List Notification) (c : WebSocketChannel) : Prop :=
  FramesFit end_ bytes ∧ ∀ items s rest, Reads (nextItem side) .frames bytes items s rest →
    (s = .beyond → rest = bytes) ∧ Heard client c (told ++ toldBy items)

/-- Where the handshake ends when it is complete. -/
def handshakeEnd (side : ClientSide) (c : WebSocketChannel) (arrival : Arrival) : Option Nat :=
  match c.handshake.readServerHandshake side (c.buffer ++ arrival.data) arrival.beyond with
  | none => none
  | some read =>
    if 0 < read.headerLength ∧ read.handshake.mode = .connected then some read.headerLength.toNat
    else none

def Survives (client : Client) (side : ClientSide) (c : WebSocketChannel) : ChannelEvent → Prop
  | .didReceiveData arrival =>
    c.closed = true ∨ c.fault ≠ none ∨ c.client = false ∨ ∀ address ∈ arrival.memory,
      (c.handshake.mode = .connected →
        FramesSurvive client side (address + (c.buffer ++ arrival.data).length)
          (c.buffer ++ arrival.data) [] c) ∧
      (c.handshake.mode = .incomplete → ∀ length ∈ c.handshakeEnd side arrival,
        length ≤ (c.buffer ++ arrival.data).length ∧
        FramesSurvive client side (address + ((c.buffer ++ arrival.data).drop length).length)
          ((c.buffer ++ arrival.data).drop length) [.didConnect] c)
  | _ => True

/-! Handlers do not see the rest of the channel. -/

/-- The channels are alike to the client and to the socket. -/
structure Alike (c c' : WebSocketChannel) : Prop where
  client : c.client = c'.client
  handle : c.handle = c'.handle
  trace : c.trace = c'.trace

section
variable {client : Client} {c c' : WebSocketChannel}

theorem operate_alike {close : Closing → WebSocketChannel → WebSocketChannel}
    (closes : ∀ closing c c', Alike c c' → Alike (close closing c) (close closing c'))
    (alike : Alike c c') (operation : ClientOperation) :
    Alike (operate close c operation) (operate close c' operation) := by
  unfold operate
  cases operation with
  | send message =>
    by_cases handle : c.handle = true
    · have handle' : c'.handle = true := alike.handle ▸ handle
      dsimp only
      rw [if_pos handle, if_pos handle']
      exact alike
    · have handle' : ¬c'.handle = true := alike.handle ▸ handle
      dsimp only
      rw [if_neg handle, if_neg handle']
      exact ⟨alike.client, alike.handle, alike.trace⟩
  | close closing =>
    by_cases handle : c.handle = true
    · have handle' : c'.handle = true := alike.handle ▸ handle
      dsimp only
      rw [if_pos handle, if_pos handle']
      exact closes _ _ _ alike
    · have handle' : ¬c'.handle = true := alike.handle ▸ handle
      dsimp only
      rw [if_neg handle, if_neg handle']
      exact alike
  | disconnect closing =>
    have gone : Alike { c with client := false, trace := c.trace ++ [.disconnected] }
        { c' with client := false, trace := c'.trace ++ [.disconnected] } :=
      ⟨rfl, alike.handle, congrArg (· ++ [.disconnected]) alike.trace⟩
    by_cases handle : c.handle = true
    · have handle' : c'.handle = true := alike.handle ▸ handle
      dsimp only
      rw [if_pos handle, if_pos handle']
      exact closes _ _ _ gone
    · have handle' : ¬c'.handle = true := alike.handle ▸ handle
      dsimp only
      rw [if_neg handle, if_neg handle']
      exact gone

theorem operate_all_alike {close : Closing → WebSocketChannel → WebSocketChannel}
    (closes : ∀ closing c c', Alike c c' → Alike (close closing c) (close closing c'))
    (operations : List ClientOperation) (alike : Alike c c') :
    Alike (operations.foldl (operate close) c) (operations.foldl (operate close) c') := by
  induction operations generalizing c c' with
  | nil => exact alike
  | cons operation operations ih => exact ih (operate_alike closes alike operation)

theorem didClose_alike (bufferedAmount : Nat) (alike : Alike c c') :
    Alike (c.didClose client bufferedAmount) (c'.didClose client bufferedAmount) := by
  unfold didClose
  by_cases handle : c.handle = true
  · have handle' : c'.handle = true := alike.handle ▸ handle
    rw [if_pos handle, if_pos handle']
    dsimp only
    by_cases live : c.client = true
    · have live' : c'.client = true := alike.client ▸ live
      rw [if_pos live, if_pos live', ← alike.trace]
      exact operate_all_alike (fun _ _ _ alike => alike) _ ⟨rfl, rfl, rfl⟩
    · have live' : ¬c'.client = true := alike.client ▸ live
      rw [if_neg live, if_neg live']
      exact ⟨rfl, rfl, alike.trace⟩
  · have handle' : ¬c'.handle = true := alike.handle ▸ handle
    rw [if_neg handle, if_neg handle']
    exact alike

theorem closeHandle_alike (closing : Closing) (c c' : WebSocketChannel) (alike : Alike c c') :
    Alike (closeHandle client closing c) (closeHandle client closing c') := by
  unfold closeHandle
  cases closing with
  | none => exact ⟨alike.client, alike.handle, alike.trace⟩
  | some bufferedAmount => exact didClose_alike _ ⟨alike.client, alike.handle, alike.trace⟩

theorem notify_alike (client : Client) (notification : Notification) (alike : Alike c c') :
    Alike (c.notify client notification) (c'.notify client notification) := by
  unfold notify
  dsimp only
  rw [← alike.trace]
  exact operate_all_alike closeHandle_alike _ ⟨alike.client, alike.handle, rfl⟩

theorem heard_alike (notifications : List Notification) (alike : Alike c c') :
    Heard client c notifications ↔ Heard client c' notifications := by
  induction notifications generalizing c c' with
  | nil => exact Iff.rfl
  | cons notification notifications ih =>
    unfold Heard
    rw [alike.client, ih (notify_alike client notification alike)]

/-- What handlers leave alone. -/
structure Kept (c c' : WebSocketChannel) : Prop where
  handshake : c'.handshake = c.handshake
  buffer : c'.buffer = c.buffer
  processed : c'.processed = c.processed
  fault : c'.fault = c.fault

theorem Kept.trans {c'' : WebSocketChannel} (first : Kept c c') (second : Kept c' c'') : Kept c c'' :=
  ⟨second.handshake.trans first.handshake, second.buffer.trans first.buffer,
    second.processed.trans first.processed, second.fault.trans first.fault⟩

theorem operate_kept {close : Closing → WebSocketChannel → WebSocketChannel}
    (closes : ∀ closing c, Kept c (close closing c)) (operations : List ClientOperation)
    (kept : Kept c c') : Kept c (operations.foldl (operate close) c') := by
  induction operations generalizing c' with
  | nil => exact kept
  | cons operation operations ih =>
    apply ih
    unfold operate
    cases operation with
    | send message =>
      dsimp only
      split_ifs
      · exact kept
      · exact ⟨kept.handshake, kept.buffer, kept.processed, kept.fault⟩
    | close closing =>
      dsimp only
      split_ifs
      · exact kept.trans (closes _ _)
      · exact kept
    | disconnect closing =>
      have kept' : Kept c { c' with client := false, trace := c'.trace ++ [.disconnected] } :=
        ⟨kept.handshake, kept.buffer, kept.processed, kept.fault⟩
      dsimp only
      split_ifs
      · exact kept'.trans (closes _ _)
      · exact kept'

theorem didClose_kept (bufferedAmount : Nat) (kept : Kept c c') :
    Kept c (c'.didClose client bufferedAmount) := by
  unfold didClose
  dsimp only
  split_ifs
  · apply operate_kept (fun _ _ => ⟨rfl, rfl, rfl, rfl⟩)
    exact ⟨kept.handshake, kept.buffer, kept.processed, kept.fault⟩
  · exact ⟨kept.handshake, kept.buffer, kept.processed, kept.fault⟩
  · exact kept

theorem closeHandle_kept (client : Client) (closing : Closing) (c : WebSocketChannel) :
    Kept c (closeHandle client closing c) := by
  unfold closeHandle
  cases closing with
  | none => exact ⟨rfl, rfl, rfl, rfl⟩
  | some bufferedAmount => exact didClose_kept _ ⟨rfl, rfl, rfl, rfl⟩

theorem notify_kept (client : Client) (notification : Notification) (c : WebSocketChannel) :
    Kept c (c.notify client notification) :=
  operate_kept (closeHandle_kept client) _ ⟨rfl, rfl, rfl, rfl⟩

theorem fail_kept (client : Client) (closing : Closing) (c : WebSocketChannel) : Kept c (c.fail client closing) := by
  have kept := closeHandle_kept client closing { c with trace := c.trace ++ [.failed] }
  exact ⟨kept.handshake, kept.buffer, kept.processed, kept.fault⟩

/-- Nothing was told after the end, and after it no client is left. -/
structure Silent (c : WebSocketChannel) : Prop where
  quiet : Happening.Quiet c.trace
  ended : ∀ a ∈ c.trace, a.Ends → c.client = false

/-- Something that is not told, or is told while there is a client. -/
theorem Silent.append (silent : c.Silent) (happening : Happening)
    (fine : happening.IsNotification → c.client = true)
    (trace : c'.trace = c.trace ++ [happening])
    (gone : happening.Ends → c'.client = false) (less : c.client = false → c'.client = false) :
    c'.Silent := by
  refine ⟨?_, ?_⟩
  · rw [trace]
    refine List.pairwise_append.mpr ⟨silent.quiet, List.pairwise_singleton _ _, ?_⟩
    intro a inside b single ends told
    rw [List.mem_singleton.mp single] at told
    have none_left := silent.ended a inside ends
    rw [fine told] at none_left
    cases none_left
  · intro a inside ends
    rw [trace, List.mem_append] at inside
    obtain inside | single := inside
    · exact less (silent.ended a inside ends)
    · rw [List.mem_singleton.mp single] at ends
      exact gone ends

theorem operate_silent {close : Closing → WebSocketChannel → WebSocketChannel}
    (closes : ∀ closing c, c.Silent → (close closing c).Silent) (operations : List ClientOperation)
    (silent : c.Silent) : (operations.foldl (operate close) c).Silent := by
  induction operations generalizing c with
  | nil => exact silent
  | cons operation operations ih =>
    apply ih
    unfold operate
    cases operation with
    | send message =>
      dsimp only
      split_ifs
      · exact silent
      · exact ⟨silent.quiet, silent.ended⟩
    | close closing =>
      dsimp only
      split_ifs
      · exact closes _ _ silent
      · exact silent
    | disconnect closing =>
      have gone : Silent { c with client := false, trace := c.trace ++ [.disconnected] } :=
        silent.append .disconnected (fun told => told.elim) rfl (fun _ => rfl)
          fun _ => rfl
      dsimp only
      split_ifs
      · exact closes _ _ gone
      · exact gone

theorem didClose_silent (bufferedAmount : Nat) (silent : c.Silent) :
    (c.didClose client bufferedAmount).Silent := by
  unfold didClose
  dsimp only
  split_ifs with handle live
  · apply operate_silent (fun _ _ silent => silent)
    exact silent.append (.notified .didClose) (fun _ => live) rfl (fun _ => rfl) fun _ => rfl
  · exact ⟨silent.quiet, fun _ _ _ => rfl⟩
  · exact silent

theorem closeHandle_silent (closing : Closing) (c : WebSocketChannel) (silent : c.Silent) :
    (closeHandle client closing c).Silent := by
  unfold closeHandle
  cases closing with
  | none => exact ⟨silent.quiet, silent.ended⟩
  | some bufferedAmount => exact didClose_silent _ ⟨silent.quiet, silent.ended⟩

theorem notify_silent (notification : Notification) (silent : c.Silent) (live : c.client = true)
    (goes_on : notification ≠ .didClose) : (c.notify client notification).Silent := by
  apply operate_silent closeHandle_silent
  refine silent.append (.notified notification) (fun _ => live) rfl (fun ends => ?_) (fun none_left => none_left)
  cases notification with
  | didClose => exact absurd rfl goes_on
  | didConnect | didReceiveMessage => exact ends.elim

theorem fail_silent (closing : Closing) (silent : c.Silent) : (c.fail client closing).Silent := by
  apply closeHandle_silent
  exact silent.append .failed (fun told => told.elim) rfl (fun ends => ends.elim)
    fun none_left => none_left

end

/-- What is before a suffix is before a shorter one. -/
theorem take_of_suffix {input rest rest' : List Byte} (suffix : rest <:+ input)
    (suffix' : rest' <:+ rest) :
    input.take (input.length - rest.length) ++ rest.take (rest.length - rest'.length) =
      input.take (input.length - rest'.length) := by
  obtain ⟨before, rfl⟩ := suffix
  obtain ⟨before', rfl⟩ := suffix'
  have first : (before ++ (before' ++ rest')).length - (before' ++ rest').length = before.length := by
    simp
  have second : (before' ++ rest').length - rest'.length = before'.length := by simp
  have both : (before ++ (before' ++ rest')).length - rest'.length = (before ++ before').length := by
    rw [← List.append_assoc, List.length_append, Nat.add_sub_cancel]
  rw [first, second, both, List.take_left, List.take_left, ← List.append_assoc, List.take_left]

section
variable (client : Client) (side : ClientSide) (closing : Closing) {end_ : Nat}

theorem readFrames_silent (c : WebSocketChannel) (nextFrame : List Byte) (silent : c.Silent) :
    (readFrames client side closing end_ c nextFrame).1.Silent := by
  induction length : nextFrame.length using Nat.strong_induction_on generalizing c nextFrame with
  | _ n ih =>
    cases nextFrame with
    | nil =>
      rw [readFrames]
      exact silent
    | cons frameByte p =>
      rw [readFrames_cons]
      cases read : readFrame end_ frameByte p with
      | overflow => exact fail_silent closing silent
      | wild => exact ⟨silent.quiet, silent.ended⟩
      | incomplete => exact silent
      | frame message rest =>
        have shorter := (readFrame_suffix read).length_le
        have less : rest.length < n := by
          rw [← length, List.length_cons]
          omega
        cases message with
        | none => exact ih rest.length less _ rest ⟨silent.quiet, silent.ended⟩ rfl
        | some bytes =>
          dsimp only
          split_ifs with live
          · refine ih rest.length less _ rest (notify_silent _ ?_ live (by rintro ⟨⟩)) rfl
            exact ⟨silent.quiet, silent.ended⟩
          · exact ⟨silent.quiet, silent.ended⟩

/-- What the loop does with a client that may go away. -/
structure Looped (c : WebSocketChannel) (nextFrame : List Byte) (s : Phase) (rest : List Byte)
    (result : WebSocketChannel × Option (List Byte)) : Prop where
  fault : result.1.fault = c.fault
  buffer : result.1.buffer = c.buffer
  processed : result.1.processed = c.processed ++ nextFrame.take (nextFrame.length - rest.length)
  ends : result.2 = some rest ∧ s = .frames ∨ result.2 = none ∧ s = .beyond

theorem readFrames_loops (c : WebSocketChannel) (nextFrame : List Byte)
    (fit : FramesFit end_ nextFrame) :
    ∃ items s rest, Reads (nextItem side) .frames nextFrame items s rest ∧
      (Heard client c (toldBy items) →
        Looped c nextFrame s rest (readFrames client side closing end_ c nextFrame)) ∧
      (¬Heard client c (toldBy items) →
        (readFrames client side closing end_ c nextFrame).1.fault = some .nullClient) := by
  induction length : nextFrame.length using Nat.strong_induction_on generalizing c nextFrame with
  | _ n ih =>
    cases nextFrame with
    | nil =>
      refine ⟨[], .frames, [], .waits rfl, fun _ => ?_, fun unheard => absurd trivial unheard⟩
      rw [readFrames]
      exact ⟨rfl, rfl, (List.append_nil _).symm, .inl ⟨rfl, rfl⟩⟩
    | cons frameByte p =>
      obtain ⟨fits, others⟩ := framesFit_cons.mp fit
      have item := nextItem_frames side frameByte p
      rw [readFrames_cons, readFrame_fits fits]
      cases read : readFrame 0 frameByte p with
      | overflow =>
        rw [read] at item
        have kept := fail_kept client closing c
        refine ⟨[[.failed]], .beyond, _, .item item (.waits rfl), fun _ =>
          ⟨kept.fault, kept.buffer, ?_, .inr ⟨rfl, rfl⟩⟩, fun unheard => absurd trivial unheard⟩
        rw [List.drop_zero, Nat.sub_self, List.take_zero, List.append_nil]
        exact kept.processed
      | wild => exact absurd (lengthFits_zero frameByte p) (readFrame_wild_iff.mp read)
      | incomplete =>
        rw [read] at item
        refine ⟨[], .frames, _, .waits item, fun _ => ⟨rfl, rfl, ?_, .inl ⟨rfl, rfl⟩⟩,
          fun unheard => absurd trivial unheard⟩
        rw [Nat.sub_self, List.take_zero, List.append_nil]
      | frame message rest =>
        rw [read] at item
        dsimp only at item ⊢
        have suffix := readFrame_suffix read
        have shorter := suffix.length_le
        have less : rest.length < n := by
          rw [← length, List.length_cons]
          omega
        have behind : (frameByte :: p).drop (p.length + 1 - rest.length) = rest :=
          (List.suffix_iff_eq_drop.mp (suffix.trans (List.suffix_cons _ _))).symm
        have pieces : ∀ rest', rest' <:+ rest →
            (frameByte :: p).take ((frameByte :: p).length - rest.length) ++
              rest.take (rest.length - rest'.length) =
                (frameByte :: p).take ((frameByte :: p).length - rest'.length) :=
          fun rest' suffix' => take_of_suffix (suffix.trans (List.suffix_cons _ _)) suffix'
        cases message with
        | none =>
          obtain ⟨items, s, rest', reads, heard, unheard⟩ := ih rest.length less
            { c with
              processed := c.processed ++ (frameByte :: p).take ((frameByte :: p).length - rest.length) }
            rest (others _ _ read) rfl
          have same : Heard client { c with
              processed := c.processed ++ (frameByte :: p).take ((frameByte :: p).length - rest.length) }
              (toldBy items) ↔ Heard client c (toldBy ([] :: items)) :=
            heard_alike _ ⟨rfl, rfl, rfl⟩
          refine ⟨[] :: items, s, rest', .item item (by rw [behind]; exact reads), fun all => ?_,
            fun all => unheard fun part => all (same.mp part)⟩
          obtain ⟨fault, buffer, processed, ends⟩ := heard (same.mpr all)
          refine ⟨fault, buffer, ?_, ends⟩
          rw [processed, List.append_assoc, pieces rest' reads.suffix]
        | some bytes =>
          dsimp only
          have kept := notify_kept client (.didReceiveMessage (side.decode bytes))
            { c with
              processed := c.processed ++ (frameByte :: p).take ((frameByte :: p).length - rest.length) }
          obtain ⟨items, s, rest', reads, heard, unheard⟩ := ih rest.length less
            (notify client { c with
              processed := c.processed ++ (frameByte :: p).take ((frameByte :: p).length - rest.length) }
              (.didReceiveMessage (side.decode bytes)))
            rest (others _ _ read) rfl
          have same : c.client = true ∧ Heard client (notify client { c with
              processed := c.processed ++ (frameByte :: p).take ((frameByte :: p).length - rest.length) }
              (.didReceiveMessage (side.decode bytes))) (toldBy items) ↔
                Heard client c (toldBy (messageItem side (some bytes) :: items)) :=
            and_congr_right fun _ => heard_alike _ (notify_alike client _ ⟨rfl, rfl, rfl⟩)
          refine ⟨_ :: items, s, rest', .item item (by rw [behind]; exact reads), fun all => ?_,
            fun all => ?_⟩
          · obtain ⟨live, later⟩ := same.mpr all
            obtain ⟨fault, buffer, processed, ends⟩ := heard later
            rw [if_pos live]
            refine ⟨fault.trans kept.fault, buffer.trans kept.buffer, ?_, ends⟩
            rw [processed, kept.processed, List.append_assoc, pieces rest' reads.suffix]
          · by_cases live : c.client = true
            · rw [if_pos live]
              exact unheard fun part => all (same.mp ⟨live, part⟩)
            · rw [if_neg live]

/-- A frame that does not fit is not passed. -/
theorem readFrames_stray (c : WebSocketChannel) (nextFrame : List Byte)
    (unfit : ¬FramesFit end_ nextFrame) :
    (readFrames client side closing end_ c nextFrame).1.fault = some .wild ∨
      (readFrames client side closing end_ c nextFrame).1.fault = some .nullClient := by
  induction length : nextFrame.length using Nat.strong_induction_on generalizing c nextFrame with
  | _ n ih =>
    cases nextFrame with
    | nil => exact absurd framesFit_nil unfit
    | cons frameByte p =>
      rw [readFrames_cons]
      by_cases fits : LengthFits end_ frameByte p
      · rw [readFrame_fits fits]
        rw [framesFit_cons, not_and] at unfit
        have later := unfit fits
        simp only [not_forall] at later
        obtain ⟨message, rest, read, unfit'⟩ := later
        have shorter := (readFrame_suffix read).length_le
        have less : rest.length < n := by
          rw [← length, List.length_cons]
          omega
        rw [read]
        dsimp only
        cases message with
        | none => exact ih rest.length less _ rest unfit' rfl
        | some bytes =>
          dsimp only
          split_ifs
          · exact ih rest.length less _ rest unfit' rfl
          · exact .inr rfl
      · rw [readFrame_wild_iff.mpr fits]
        exact .inl rfl

variable {c : WebSocketChannel} {address : Nat}

/-- Nothing went wrong so far, and what was processed and what is in the buffer is all there was. -/
def Whole (all : List Byte) (c : WebSocketChannel) : Prop :=
  (c.fault = none ∨ c.fault = some .nullName) ∧ (c.fault = none → all = c.processed ++ c.buffer)

theorem receiveFrames_iff (address : Nat) (connected : c.handshake.mode = .connected) (fine : c.fault = none) :
    (c.receiveFrames client side closing address).Whole (c.processed ++ c.buffer) ↔
      FramesSurvive client side (address + c.buffer.length) c.buffer [] c := by
  unfold receiveFrames
  rw [if_neg (not_not.mpr connected)]
  by_cases fit : FramesFit (address + c.buffer.length) c.buffer
  · obtain ⟨items, s, rest, reads, heard, unheard⟩ :=
      readFrames_loops client side closing c c.buffer fit
    have only : FramesSurvive client side (address + c.buffer.length) c.buffer [] c ↔
        (s = .beyond → rest = c.buffer) ∧ Heard client c (toldBy items) := by
      constructor
      · exact fun survive => survive.2 items s rest reads
      · intro survive
        refine ⟨fit, fun items' s' rest' reads' => ?_⟩
        obtain ⟨rfl, rfl, rfl⟩ := reads.unique reads'
        exact survive
    rw [only]
    by_cases all : Heard client c (toldBy items)
    · have looped := heard all
      generalize readFrames client side closing (address + c.buffer.length) c c.buffer = result
        at looped ⊢
      obtain ⟨c', left⟩ := result
      obtain ⟨fault, buffer, processed, ⟨rfl, rfl⟩ | ⟨rfl, rfl⟩⟩ := looped
      · refine iff_of_true ⟨.inl (fault.trans fine), fun _ => ?_⟩ ⟨nofun, all⟩
        unfold skipBuffer
        dsimp only at buffer processed ⊢
        rw [processed, buffer, List.append_assoc, List.take_append_drop]
      · dsimp only at fault buffer processed ⊢
        rw [and_iff_left all]
        constructor
        · intro whole _
          have same := whole.2 (fault.trans fine)
          rw [processed, buffer, List.append_assoc] at same
          have lengths := congrArg List.length (List.append_cancel_left same)
          have shorter := reads.suffix.length_le
          rw [List.length_append, List.length_take] at lengths
          exact reads.suffix.eq_of_length (by omega)
        · intro untouched
          refine ⟨.inl (fault.trans fine), fun _ => ?_⟩
          rw [processed, buffer, untouched rfl, Nat.sub_self, List.take_zero, List.append_nil]
    · have null := unheard all
      refine iff_of_false ?_ fun survive => all survive.2
      generalize readFrames client side closing (address + c.buffer.length) c c.buffer = result
        at null ⊢
      obtain ⟨c', left⟩ := result
      have null' : c'.fault = some .nullClient := null
      rintro ⟨fault, -⟩
      cases left with
      | none =>
        change c'.fault = _ ∨ c'.fault = _ at fault
        rw [null'] at fault
        obtain bad | bad := fault <;> cases bad
      | some nextFrame =>
        change c'.fault = _ ∨ c'.fault = _ at fault
        rw [null'] at fault
        obtain bad | bad := fault <;> cases bad
  · have stray := readFrames_stray client side closing c c.buffer fit
    refine iff_of_false ?_ fun survive => fit survive.1
    generalize readFrames client side closing (address + c.buffer.length) c c.buffer = result
      at stray ⊢
    obtain ⟨c', left⟩ := result
    have stray' : c'.fault = some .wild ∨ c'.fault = some .nullClient := stray
    rintro ⟨fault, -⟩
    have fault' : c'.fault = none ∨ c'.fault = some .nullName := by cases left <;> exact fault
    obtain same | same := stray'
    all_goals
      rw [same] at fault'
      obtain bad | bad := fault' <;> cases bad

theorem receiveFrames_silent (silent : c.Silent) :
    (c.receiveFrames client side closing address).Silent := by
  have silent' : (readFrames client side closing (address + c.buffer.length) c c.buffer).1.Silent :=
    readFrames_silent client side closing c c.buffer silent
  unfold receiveFrames
  split_ifs
  · exact silent
  · generalize readFrames client side closing (address + c.buffer.length) c c.buffer = result
      at silent' ⊢
    obtain ⟨c', _ | nextFrame⟩ := result
    · exact silent'
    · exact ⟨silent'.quiet, silent'.ended⟩

theorem connected_silent {headerLength : Nat} (silent : c.Silent) (live : c.client = true) :
    (c.connected client side closing address headerLength).Silent := by
  have stored : (c.storeCookie side).Silent ∧ (c.storeCookie side).client = true := by
    unfold storeCookie
    split_ifs
    · exact ⟨⟨silent.quiet, silent.ended⟩, live⟩
    · exact ⟨silent, live⟩
  have told : ((c.storeCookie side).notify client .didConnect).Silent :=
    notify_silent .didConnect stored.1 stored.2 nofun
  unfold connected
  dsimp only
  split_ifs
  · exact ⟨told.quiet, told.ended⟩
  · exact ⟨told.quiet, told.ended⟩
  · exact receiveFrames_silent client side closing ⟨told.quiet, told.ended⟩

theorem receive_silent (arrival : Arrival) (silent : c.Silent) :
    (c.receive client side arrival).Silent := by
  unfold receive
  split_ifs
  · exact silent
  · unfold didReceiveData
    cases arrival.memory with
    | none => exact fail_silent _ ⟨silent.quiet, silent.ended⟩
    | some address =>
      dsimp only
      split_ifs with gone incomplete
      · exact fail_silent _ ⟨silent.quiet, silent.ended⟩
      · have live : c.client = true := by simpa using gone
        cases c.handshake.readServerHandshake side (c.buffer ++ arrival.data) arrival.beyond with
        | none => exact ⟨silent.quiet, silent.ended⟩
        | some read =>
          dsimp only
          split_ifs
          · exact ⟨silent.quiet, silent.ended⟩
          · exact connected_silent client side _ ⟨silent.quiet, silent.ended⟩ live
          · exact fail_silent _ ⟨silent.quiet, silent.ended⟩
      · exact receiveFrames_silent client side _ ⟨silent.quiet, silent.ended⟩

/-- The frames do not see what a handshake before them did to the rest of the channel. -/
theorem framesSurvive_alike {end_ : Nat} {bytes : List Byte} (c c' : WebSocketChannel)
    (alike : Alike c c') (told : List Notification) :
    FramesSurvive client side end_ bytes told c ↔ FramesSurvive client side end_ bytes told c' := by
  unfold FramesSurvive
  simp only [heard_alike _ alike]

theorem framesSurvive_cons {end_ : Nat} {bytes : List Byte} (live : c.client = true)
    (notification : Notification) :
    FramesSurvive client side end_ bytes [notification] c ↔
      FramesSurvive client side end_ bytes [] (c.notify client notification) := by
  unfold FramesSurvive
  simp only [List.cons_append, List.nil_append, Heard, live, true_and]

theorem framesSurvive_nil {end_ : Nat} : FramesSurvive client side end_ [] [] c := by
  refine ⟨framesFit_nil, fun items s rest reads => ?_⟩
  have nothing : Reads (nextItem side) .frames [] [] .frames [] := .waits rfl
  obtain ⟨rfl, rfl, rfl⟩ := nothing.unique reads
  exact ⟨nofun, trivial⟩

/-- The arrival that completes the handshake. -/
theorem connected_iff (address headerLength : Nat) (mode : c.handshake.mode = .connected)
    (fine : c.fault = none) (fresh : c.processed = []) (live : c.client = true) :
    (c.connected client side closing address headerLength).Whole c.buffer ↔
      headerLength ≤ c.buffer.length ∧
        FramesSurvive client side (address + (c.buffer.drop headerLength).length)
          (c.buffer.drop headerLength) [.didConnect] c := by
  have stored : Kept c (c.storeCookie side) ∧ Alike (c.storeCookie side) c := by
    unfold storeCookie
    split_ifs
    · exact ⟨⟨rfl, rfl, rfl, rfl⟩, ⟨rfl, rfl, rfl⟩⟩
    · exact ⟨⟨rfl, rfl, rfl, rfl⟩, ⟨rfl, rfl, rfl⟩⟩
  have kept := stored.1.trans (notify_kept client .didConnect (c.storeCookie side))
  have alike := notify_alike client .didConnect stored.2
  rw [framesSurvive_cons client side live, ← framesSurvive_alike client side _ _ alike]
  unfold connected
  dsimp only
  generalize (c.storeCookie side).notify client .didConnect = c' at kept ⊢
  rw [kept.buffer]
  by_cases within : c.buffer.length < headerLength
  · rw [if_pos within]
    refine iff_of_false ?_ fun both => absurd both.1 (Nat.not_le.mpr within)
    rintro ⟨fault, -⟩
    obtain bad | bad := fault <;> cases bad
  · rw [if_neg within, and_iff_right (Nat.not_lt.mp within)]
    have processed : c'.processed ++ c.buffer.take headerLength = c.buffer.take headerLength := by
      rw [kept.processed, fresh, List.nil_append]
    rw [processed]
    unfold skipBuffer
    dsimp only
    by_cases nothing : c.buffer.drop headerLength = []
    · rw [if_pos nothing, nothing]
      refine iff_of_true ⟨.inl (kept.fault.trans fine), fun _ => ?_⟩ (framesSurvive_nil client side)
      dsimp only
      rw [← nothing, List.take_append_drop]
    · rw [if_neg nothing]
      have same : Alike { c' with
          processed := c.buffer.take headerLength, buffer := c.buffer.drop headerLength } c' :=
        ⟨rfl, rfl, rfl⟩
      have iff := receiveFrames_iff client side closing address
        (c := { c' with processed := c.buffer.take headerLength, buffer := c.buffer.drop headerLength })
        (by rw [← mode, ← kept.handshake]) (kept.fault.trans fine)
      dsimp only at iff
      rw [List.take_append_drop] at iff
      rw [iff]
      exact framesSurvive_alike client side _ _ same _

/-- One event. -/
theorem step_silent (event : ChannelEvent) (silent : c.Silent) :
    (c.step client side event).Silent := by
  cases event with
  | didReceiveData arrival => exact receive_silent client side arrival silent
  | didClose bufferedAmount =>
    unfold step
    dsimp only
    split_ifs
    · exact silent
    · exact didClose_silent _ ⟨silent.quiet, silent.ended⟩
  | operate operation =>
    unfold step
    dsimp only
    split_ifs
    · exact silent
    · exact operate_silent closeHandle_silent [operation] silent

/-- An arrival on an open channel. -/
theorem didReceiveData_iff (arrival : Arrival) (fine : c.fault = none) :
    (c.didReceiveData client side arrival).Whole (c.buffer ++ appended arrival) ↔
      (c.client = false ∨ ∀ address ∈ arrival.memory,
        (c.handshake.mode = .connected →
          FramesSurvive client side (address + (c.buffer ++ arrival.data).length)
            (c.buffer ++ arrival.data) [] c) ∧
        (c.handshake.mode = .incomplete → ∀ length ∈ c.handshakeEnd side arrival,
          length ≤ (c.buffer ++ arrival.data).length ∧
          FramesSurvive client side (address + ((c.buffer ++ arrival.data).drop length).length)
            ((c.buffer ++ arrival.data).drop length) [.didConnect] c)) := by
  have failed : ∀ (c' : WebSocketChannel) (all : List Byte), c'.fault = none → c'.processed = [] →
      c'.buffer = all → (c'.fail client arrival.closing).Whole all := by
    rintro c' _ fine' fresh rfl
    have kept := fail_kept client arrival.closing c'
    refine ⟨.inl (kept.fault.trans fine'), fun _ => ?_⟩
    rw [kept.processed, kept.buffer, fresh, List.nil_append]
  unfold didReceiveData appended
  cases memory : arrival.memory with
  | none =>
    refine iff_of_true (failed _ _ fine rfl ?_) (.inr nofun)
    exact (List.append_nil _).symm
  | some address =>
    simp only [Option.isSome_some, if_true, Option.mem_some_iff, forall_eq']
    by_cases gone : c.client = false
    · rw [gone]
      exact iff_of_true (failed _ _ fine rfl rfl) (.inl rfl)
    · have live : c.client = true := eq_true_of_ne_false gone
      rw [or_iff_right gone, if_neg (by rw [live]; decide)]
      by_cases incomplete : c.handshake.mode = .incomplete
      · rw [if_pos incomplete]
        unfold handshakeEnd
        cases read : c.handshake.readServerHandshake side (c.buffer ++ arrival.data)
            arrival.beyond with
        | none =>
          refine iff_of_true ⟨.inr rfl, nofun⟩ ⟨fun connected => ?_, fun _ => nofun⟩
          rw [incomplete] at connected
          cases connected
        | some result =>
          dsimp only
          by_cases short : result.headerLength ≤ 0
          · rw [if_pos short, if_neg fun both => absurd both.1 (Int.not_lt.mpr short)]
            refine iff_of_true ⟨.inl fine, fun _ => rfl⟩ ⟨fun connected => ?_, fun _ => nofun⟩
            rw [incomplete] at connected
            cases connected
          · rw [if_neg short]
            by_cases connected : result.handshake.mode = .connected
            · rw [if_pos connected, if_pos ⟨Int.not_le.mp short, connected⟩]
              simp only [Option.mem_some_iff, forall_eq']
              have iff := connected_iff client side arrival.closing address
                result.headerLength.toNat (c := { c with
                  processed := [], buffer := c.buffer ++ arrival.data, handshake := result.handshake
                  messages := c.messages ++ result.message.toList
                  outside := c.outside || result.outside }) connected fine rfl live
              have same : Alike { c with
                  processed := [], buffer := c.buffer ++ arrival.data, handshake := result.handshake
                  messages := c.messages ++ result.message.toList
                  outside := c.outside || result.outside } c := ⟨rfl, rfl, rfl⟩
              rw [framesSurvive_alike client side _ _ same] at iff
              refine iff.trans ?_
              constructor
              · refine fun survive => ⟨fun other => ?_, fun _ => survive⟩
                rw [incomplete] at other
                cases other
              · exact fun survive => survive.2 incomplete
            · rw [if_neg connected, if_neg fun both => connected both.2]
              refine iff_of_true (failed _ _ fine rfl rfl) ⟨fun other => ?_, fun _ => nofun⟩
              rw [incomplete] at other
              cases other
      · rw [if_neg incomplete]
        by_cases connected : c.handshake.mode = .connected
        · have iff := receiveFrames_iff client side arrival.closing address
            (c := { c with processed := [], buffer := c.buffer ++ arrival.data }) connected fine
          have same : Alike { c with processed := [], buffer := c.buffer ++ arrival.data } c :=
            ⟨rfl, rfl, rfl⟩
          rw [framesSurvive_alike client side _ _ same] at iff
          refine iff.trans ⟨fun survive => ⟨fun _ => survive, fun other => absurd other incomplete⟩,
            fun survive => survive.1 connected⟩
        · unfold receiveFrames
          dsimp only
          rw [if_pos connected]
          exact iff_of_true ⟨.inl fine, fun _ => rfl⟩
            ⟨fun other => absurd other connected, fun other => absurd other incomplete⟩

/-- One event. -/
theorem survived_iff (event : ChannelEvent) (silent : c.Silent)
    (fine : c.fault = none ∨ c.fault = some .nullName) :
    c.Survived client side event ↔ c.Survives client side event := by
  have quiet := (step_silent client side event silent).quiet
  unfold Survived
  rw [and_iff_right quiet]
  cases event with
  | didReceiveData arrival =>
    unfold Survives
    dsimp only
    by_cases beyond : c.closed = true ∨ c.fault ≠ none
    · have same : c.step client side (.didReceiveData arrival) = c := by
        change c.receive client side arrival = c
        unfold receive
        rw [if_pos]
        rw [Bool.or_eq_true, Option.isSome_iff_ne_none]
        exact beyond
      rw [same]
      refine iff_of_true ⟨fine, fun opened running => ?_⟩ (or_assoc.mp (.inl beyond))
      obtain closed | ended := beyond
      · rw [opened] at closed
        cases closed
      · exact absurd running ended
    · obtain ⟨opened, running⟩ := not_or.mp beyond
      rw [not_not] at running
      have opened' : c.closed = false := eq_false_of_ne_true opened
      have same : c.step client side (.didReceiveData arrival) = c.didReceiveData client side arrival := by
        change c.receive client side arrival = _
        unfold receive
        rw [opened', running]
        rfl
      rw [same, or_iff_right opened, or_iff_right (not_not.mpr running),
        ← didReceiveData_iff client side arrival running]
      unfold Whole
      simp only [opened', true_implies]
  | didClose bufferedAmount =>
    refine iff_of_true ⟨?_, trivial⟩ trivial
    unfold step
    dsimp only
    split_ifs
    · exact fine
    · have kept : Kept c ({ c with closed := true }.didClose client bufferedAmount) :=
        didClose_kept bufferedAmount ⟨rfl, rfl, rfl, rfl⟩
      rw [kept.fault]
      exact fine
  | operate operation =>
    refine iff_of_true ⟨?_, trivial⟩ trivial
    unfold step
    dsimp only
    split_ifs
    · exact fine
    · have kept := operate_kept (closeHandle_kept client) [operation]
        (⟨rfl, rfl, rfl, rfl⟩ : Kept c c)
      change (operate (closeHandle client) c operation).fault = _ ∨ _
      rw [show (operate (closeHandle client) c operation).fault = c.fault from kept.fault]
      exact fine

/-- In every run the channel survives its client exactly when, at every arrival, every message finds the
client whatever its handlers did before, no frame was taken before a length that overflows, no length
reaches beyond the address space and the handshake does not end behind the buffer. -/
theorem survived_run_iff (client : Client) (side : ClientSide) (events : List ChannelEvent) :
    Along (step client side) (Survived client side) {} events ↔
      Along (step client side) (Survives client side) {} events := by
  have admitted : Along (step client side) (fun _ _ => True) {} events :=
    along_of_forall (fun _ _ => trivial) _ _
  refine along_iff (fun c => c.Silent ∧ (c.fault = none ∨ c.fault = some .nullName))
    (fun c event known _ => survived_iff client side event known.1 known.2)
    (fun c event known _ survived => ⟨step_silent client side event known.1, survived.1⟩) _ _
    ⟨⟨.nil, nofun⟩, .inl rfl⟩ admitted

end

/-- The client closes the channel when it gets a message. -/
def closesOnMessage : Client := fun trace =>
  match trace.getLast? with
  | some (.notified (.didReceiveMessage _)) => [.close (some 0)]
  | _ => []

/-- A handshake and two messages in one piece. -/
def twoMessages : Arrival :=
  ⟨webSocketServerHandshakeHeader ++ webSocketUpgradeHeader ++ exampleFields ++
    [0, 97, 0xff, 0, 98, 0xff], some 0, 0, none⟩

theorem not_survived : ¬∀ (client : Client) (side : ClientSide) (events : List ChannelEvent),
    Along (step client side) (Survived client side) {} events := by
  intro always
  obtain ⟨⟨fault, -⟩, -⟩ := always closesOnMessage exampleSide [.didReceiveData twoMessages]
  revert fault
  decide +kernel

end WebSocketChannel

end WkcBrowser.WebSockets
