import WkcBrowser.Lib.Along
import WkcBrowser.WebSockets.FrameLoop

/-! What happens to the client does not depend on how the server's bytes are cut into arrivals, as long as
every arrival is read inside the buffer. -/

namespace WkcBrowser.WebSockets

open Wtf Lib Lib.Incremental

/-- Data that arrives while there is memory for the buffer. -/
structure Piece where
  data : List Byte
  address : Nat
  beyond : Byte
  closing : Closing := none

def Piece.arrival (piece : Piece) : Arrival :=
  ⟨piece.data, some piece.address, piece.beyond, piece.closing⟩

namespace WebSocketChannel

/-- A closed handle receives nothing more. -/
def receive (client : Client) (side : ClientSide) (c : WebSocketChannel) (arrival : Arrival) :
    WebSocketChannel :=
  if c.closed || c.fault.isSome then c else c.didReceiveData client side arrival

def arrive (client : Client) (side : ClientSide) (c : WebSocketChannel) (piece : Piece) :
    WebSocketChannel :=
  c.receive client side piece.arrival

/-- Only bytes that arrived were read, and the program goes on. -/
def Inside (c : WebSocketChannel) : Prop := c.outside = false ∧ c.fault = none

/-- The bytes of an arrival in which frames are looked for. -/
def frameBytes (side : ClientSide) (c : WebSocketChannel) (data : List Byte) : List Byte :=
  if c.handshake.mode = .connected then c.buffer ++ data
  else
    match handshakeItem side (c.buffer ++ data) with
    | some (_, .frames, taken) => (c.buffer ++ data).drop taken
    | _ => []

/-- What arrives can be read inside the buffer. -/
def StaysInside (side : ClientSide) (c : WebSocketChannel) (piece : Piece) : Prop :=
  c.closed = true ∨
    (c.handshake.mode = .incomplete → HandshakeInside side (c.buffer ++ piece.data)) ∧
      FramesFit (piece.address + (c.frameBytes side piece.data).length)
        (c.frameBytes side piece.data)

/-- Where a channel stands in what it has received. -/
def Stands (c : WebSocketChannel) (s : Phase) (rest : List Byte) : Prop :=
  s = .beyond ∧ c.closed = true ∨
    c.closed = false ∧ c.client = true ∧ c.buffer = rest ∧
      (s = .handshake ∧ c.handshake = {} ∨ s = .frames ∧ c.handshake.mode = .connected)

/-- What happened to the client is what the input says. -/
def Tracks (side : ClientSide) (input : List Byte) (c : WebSocketChannel) : Prop :=
  c.Inside ∧ ∃ items s rest, Reads (nextItem side) .handshake input items s rest ∧
    c.outcomes = items.flatten ∧ c.Stands s rest

section
variable (sends : List Happening → List (List Byte)) (side : ClientSide) (closing : Closing)
  (address : Nat) {c : WebSocketChannel}

theorem receiveFrames_outside :
    (c.receiveFrames (sender sends) side closing address).outside = c.outside := by
  unfold receiveFrames
  split_ifs
  · rfl
  · have same : (readFrames (sender sends) side closing (address + c.buffer.length) c
        c.buffer).1.outside = c.outside := readFrames_outside sends side closing c c.buffer
    generalize readFrames (sender sends) side closing (address + c.buffer.length) c c.buffer = result
      at same ⊢
    obtain ⟨c', _ | nextFrame⟩ := result <;> exact same

theorem receiveFrames_tracks (connected : c.handshake.mode = .connected) (inside : c.Inside)
    (live : c.client = true) (opened : c.closed = false)
    (fit : FramesFit (address + c.buffer.length) c.buffer) :
    ∃ items s rest, Reads (nextItem side) .frames c.buffer items s rest ∧
      (c.receiveFrames (sender sends) side closing address).outcomes = c.outcomes ++ items.flatten ∧
      (c.receiveFrames (sender sends) side closing address).Inside ∧
      (c.receiveFrames (sender sends) side closing address).Stands s rest := by
  obtain ⟨items, s, rest, reads, followed⟩ := readFrames_follows sends side closing c c.buffer
    fit live
  refine ⟨items, s, rest, reads, ?_⟩
  unfold receiveFrames
  rw [if_neg (not_not.mpr connected)]
  generalize readFrames (sender sends) side closing (address + c.buffer.length) c c.buffer = result
    at followed ⊢
  obtain ⟨c', end_⟩ := result
  obtain ⟨told, outside, fault, ⟨rfl, rfl, client, closed, handshake, buffer⟩ | ⟨rfl, rfl, closed⟩⟩ :=
    followed
  · refine ⟨told, ⟨outside.trans inside.1, fault.trans inside.2⟩, .inr ⟨closed.trans opened,
      client.trans live, ?_, .inr ⟨rfl, ?_⟩⟩⟩
    · unfold skipBuffer
      dsimp only at buffer ⊢
      rw [buffer]
      exact (List.suffix_iff_eq_drop.mp reads.suffix).symm
    · unfold skipBuffer
      dsimp only at handshake ⊢
      rw [handshake]
      exact connected
  · exact ⟨told, ⟨outside.trans inside.1, fault.trans inside.2⟩, .inl ⟨rfl, closed⟩⟩

theorem receiveFrames_wild (connected : c.handshake.mode = .connected) (live : c.client = true)
    (unfit : ¬FramesFit (address + c.buffer.length) c.buffer) :
    (c.receiveFrames (sender sends) side closing address).fault = some .wild := by
  have wild := readFrames_wild sends side closing c c.buffer unfit live
  unfold receiveFrames
  rw [if_neg (not_not.mpr connected)]
  generalize readFrames (sender sends) side closing (address + c.buffer.length) c c.buffer = result
    at wild ⊢
  obtain ⟨c', _ | nextFrame⟩ := result <;> exact wild

theorem told_connected (c : WebSocketChannel) :
    ∃ cookies size, (c.storeCookie side).notify (sender sends) .didConnect =
      { c with
        cookies := cookies, trace := c.trace ++ [.notified .didConnect]
        unhandledBufferSize := size } := by
  unfold storeCookie
  by_cases enabled : side.cookiesEnabled = true
  · rw [if_pos enabled]
    obtain ⟨size, same⟩ := notify_sender sends .didConnect
      { c with cookies := c.cookies ++ (c.handshake.setCookie.filter (· ≠ [])).toList }
    exact ⟨_, size, same⟩
  · rw [if_neg enabled]
    obtain ⟨size, same⟩ := notify_sender sends .didConnect c
    exact ⟨c.cookies, size, same⟩

theorem connected_eq {headerLength : Nat} (within : headerLength ≤ c.buffer.length) :
    ∃ cookies size processed,
      c.connected (sender sends) side closing address headerLength =
        let told := { c with
          cookies := cookies
          trace := c.trace ++ [.notified .didConnect]
          unhandledBufferSize := size
          processed := processed
          buffer := c.buffer.drop headerLength }
        if c.buffer.drop headerLength = [] then told
        else told.receiveFrames (sender sends) side closing address := by
  obtain ⟨cookies, size, same⟩ := told_connected sends side c
  unfold connected
  rw [same]
  dsimp only
  rw [if_neg (Nat.not_lt.mpr within)]
  exact ⟨cookies, size, _, rfl⟩

theorem connected_outside {headerLength : Nat} :
    (c.connected (sender sends) side closing address headerLength).outside = c.outside := by
  by_cases within : headerLength ≤ c.buffer.length
  · obtain ⟨cookies, size, processed, same⟩ := connected_eq sends side closing address
      within
    rw [same]
    dsimp only
    split_ifs
    · rfl
    · exact receiveFrames_outside sends side closing address
  · obtain ⟨cookies, size, same⟩ := told_connected sends side c
    unfold connected
    rw [same]
    dsimp only
    rw [if_pos (Nat.not_le.mp within)]

end

section
variable {sends : List Happening → List (List Byte)} {side : ClientSide} {c : WebSocketChannel}
  {input : List Byte} {piece : Piece}

/-- What arrives on an open channel, when there is memory. -/
theorem receive_open (inside : c.Inside) (opened : c.closed = false) (live : c.client = true) :
    c.receive (sender sends) side piece.arrival =
      let c := { c with processed := [], buffer := c.buffer ++ piece.data }
      if c.handshake.mode = .incomplete then
        match c.handshake.readServerHandshake side c.buffer piece.beyond with
        | none => { c with fault := some .nullName }
        | some read =>
          let c := { c with
            handshake := read.handshake
            messages := c.messages ++ read.message.toList
            outside := c.outside || read.outside }
          if read.headerLength ≤ 0 then c
          else if read.handshake.mode = .connected then
            c.connected (sender sends) side piece.closing piece.address read.headerLength.toNat
          else c.fail (sender sends) piece.closing
      else c.receiveFrames (sender sends) side piece.closing piece.address := by
  have goes : (c.closed || c.fault.isSome) = false := by
    rw [opened, inside.2]
    rfl
  unfold receive
  rw [goes, if_neg Bool.false_ne_true]
  unfold didReceiveData Piece.arrival
  dsimp only
  rw [live]
  rfl

/-- One arrival. -/
theorem tracks_receive (tracks : c.Tracks side input) (stays : c.StaysInside side piece) :
    (c.receive (sender sends) side piece.arrival).Tracks side (input ++ piece.data) := by
  obtain ⟨inside, items, s, rest, reads, told, ⟨rfl, closed⟩ | ⟨opened, live, rfl, stands⟩⟩ := tracks
  · have same : c.receive (sender sends) side piece.arrival = c := by
      unfold receive
      rw [closed, Bool.true_or]
      exact if_pos rfl
    rw [same]
    refine ⟨inside, items ++ [], .beyond, _, reads.append steady_nextItem (.waits rfl), ?_,
      .inl ⟨rfl, closed⟩⟩
    rw [List.append_nil]
    exact told
  · obtain closed | ⟨handshakeInside, fit⟩ := stays
    · rw [opened] at closed
      cases closed
    rw [receive_open inside opened live]
    dsimp only
    obtain ⟨rfl, fresh⟩ | ⟨rfl, connected⟩ := stands
    · rw [fresh, if_pos rfl]
      rw [fresh] at handshakeInside
      obtain ⟨headerLength, short, message, all⟩ | ⟨result, taken, settles⟩ :=
        waits_or_settles {} (handshakeInside rfl)
      · have waits := handshakeItem_waits ⟨headerLength, short, message, all⟩
        rw [all piece.beyond]
        dsimp only
        rw [if_pos short]
        refine ⟨⟨?_, inside.2⟩, items ++ [], .handshake, _, reads.append steady_nextItem (.waits waits),
          ?_, .inr ⟨opened, live, rfl, .inl ⟨rfl, rfl⟩⟩⟩
        · change (c.outside || false) = false
          rw [inside.1]
          rfl
        · rw [List.append_nil]
          exact told
      · have item := handshakeItem_settles settles []
        obtain ⟨read, found, within, rfl, long, length⟩ := settles.2 [] piece.beyond
        rw [List.append_nil] at item found
        rw [found]
        dsimp only
        rw [if_neg (Int.not_le.mpr long), within, Bool.or_false]
        by_cases connected : read.handshake.mode = .connected
        · rw [if_pos connected, length connected, Int.toNat_natCast]
          rw [if_pos connected] at item
          unfold frameBytes at fit
          rw [fresh, if_neg (by decide), item] at fit
          dsimp only at fit
          obtain ⟨cookies, size, processed, same⟩ := connected_eq sends side piece.closing piece.address
            (c := { c with
              processed := [], buffer := c.buffer ++ piece.data, handshake := read.handshake
              messages := c.messages ++ read.message.toList }) settles.1
          rw [same]
          dsimp only
          have told' : ∀ items' : List Happening,
              (c.trace ++ [Happening.notified .didConnect]).filter Happening.isOutcome ++ items' =
                items.flatten ++ ([Happening.notified .didConnect] ++ items') := by
            intro items'
            rw [← told, List.filter_append, List.append_assoc]
            rfl
          by_cases nothing : (c.buffer ++ piece.data).drop taken = []
          · rw [if_pos nothing]
            refine ⟨inside, items ++ [[Happening.notified .didConnect]], .frames, _,
              reads.append steady_nextItem (.item item (.waits ?_)), ?_,
              .inr ⟨opened, live, rfl, .inr ⟨rfl, connected⟩⟩⟩
            · rw [nothing]
              rfl
            · have same := told' []
              rw [List.append_nil, List.append_nil] at same
              rw [List.flatten_append]
              exact same
          · rw [if_neg nothing]
            obtain ⟨items', s, rest, reads', told'', inside', stands'⟩ := receiveFrames_tracks
              sends side piece.closing piece.address (c := { c with
                handshake := read.handshake, messages := c.messages ++ read.message.toList
                cookies := cookies, trace := c.trace ++ [.notified .didConnect]
                unhandledBufferSize := size, processed := processed
                buffer := (c.buffer ++ piece.data).drop taken })
              connected inside live opened fit
            refine ⟨inside', items ++ [Happening.notified .didConnect] :: items', s, rest,
              reads.append steady_nextItem (.item item reads'), ?_, stands'⟩
            rw [told'', List.flatten_append, List.flatten_cons]
            exact told' _
        · rw [if_neg connected]
          rw [if_neg connected] at item
          obtain ⟨closed, failed, outside, fault⟩ := fail_sender sends piece.closing
            { c with
              processed := [], buffer := c.buffer ++ piece.data, handshake := read.handshake
              messages := c.messages ++ read.message.toList }
          refine ⟨⟨outside.trans inside.1, fault.trans inside.2⟩, _, .beyond, _,
            reads.append steady_nextItem (.item item (.waits rfl)), ?_, .inl ⟨rfl, closed⟩⟩
          rw [failed, List.flatten_append, ← told]
          rfl
    · rw [if_neg (by rw [connected]; decide)]
      unfold frameBytes at fit
      rw [if_pos connected] at fit
      obtain ⟨items', s, rest, reads', told', inside', stands'⟩ := receiveFrames_tracks sends side piece.closing
        piece.address (c := { c with processed := [], buffer := c.buffer ++ piece.data }) connected inside live
        opened fit
      refine ⟨inside', items ++ items', s, rest, reads.append steady_nextItem reads', ?_, stands'⟩
      rw [told', List.flatten_append, ← told]
      rfl

/-- An arrival that cannot be read inside the buffer. -/
theorem not_inside_receive (tracks : c.Tracks side input) (strays : ¬c.StaysInside side piece) :
    ¬(c.receive (sender sends) side piece.arrival).Inside := by
  obtain ⟨inside, items, s, rest, -, -, ⟨-, closed⟩ | ⟨opened, live, rfl, stands⟩⟩ := tracks
  · exact absurd (.inl closed) strays
  · rintro ⟨within, fine⟩
    unfold StaysInside at strays
    rw [not_or, not_and_or] at strays
    obtain ⟨-, strays⟩ := strays
    rw [receive_open inside opened live] at within fine
    dsimp only at within fine
    obtain ⟨-, fresh⟩ | ⟨-, connected⟩ := stands
    · rw [fresh, if_pos rfl] at within fine
      by_cases handshakeInside : HandshakeInside side (c.buffer ++ piece.data)
      · have unfit := strays.resolve_left fun all => all fun _ => handshakeInside
        unfold frameBytes at unfit
        rw [fresh, if_neg (by decide)] at unfit
        obtain waits | ⟨result, taken, settles⟩ :=
          waits_or_settles {} handshakeInside
        · rw [handshakeItem_waits waits] at unfit
          exact unfit framesFit_nil
        · have item := handshakeItem_settles settles []
          obtain ⟨read, found, -, rfl, long, length⟩ := settles.2 [] piece.beyond
          rw [List.append_nil] at item found
          rw [item] at unfit
          rw [found] at fine
          dsimp only at fine
          rw [if_neg (Int.not_le.mpr long)] at fine
          by_cases connected : read.handshake.mode = .connected
          · rw [if_pos connected, length connected, Int.toNat_natCast] at fine
            rw [if_pos connected] at unfit
            dsimp only at unfit
            obtain ⟨cookies, size, processed, same⟩ := connected_eq sends side piece.closing piece.address
              (c := { c with
                processed := [], buffer := c.buffer ++ piece.data, handshake := read.handshake
                messages := c.messages ++ read.message.toList
                outside := c.outside || read.outside }) settles.1
            rw [same] at fine
            dsimp only at fine
            by_cases nothing : (c.buffer ++ piece.data).drop taken = []
            · rw [nothing] at unfit
              exact unfit framesFit_nil
            · rw [if_neg nothing] at fine
              cases fine.symm.trans (receiveFrames_wild sends side piece.closing piece.address connected live unfit)
          · rw [if_neg connected] at unfit
            exact unfit framesFit_nil
      · rw [← WebSocketHandshake.readServerHandshake_iff {} _ piece.beyond]
          at handshakeInside
        cases read : ({} : WebSocketHandshake).readServerHandshake side (c.buffer ++ piece.data)
            piece.beyond with
        | none =>
          rw [read] at fine
          cases fine
        | some result =>
          have outside : result.outside = true :=
            eq_true_of_ne_false fun apart => handshakeInside ⟨result, read, apart⟩
          rw [read] at within
          dsimp only at within
          rw [outside, Bool.or_true] at within
          split_ifs at within
          · rw [connected_outside] at within
            cases within
          · rw [fail_outside] at within
            cases within
    · have unfit := strays.resolve_left fun all => all fun incomplete => by
        rw [connected] at incomplete
        cases incomplete
      unfold frameBytes at unfit
      rw [if_pos connected] at unfit
      rw [if_neg (by rw [connected]; decide)] at fine
      cases fine.symm.trans (receiveFrames_wild sends side piece.closing piece.address connected live unfit)

theorem inside_receive_iff (tracks : c.Tracks side input) :
    (c.receive (sender sends) side piece.arrival).Inside ↔ c.StaysInside side piece := by
  constructor
  · exact fun inside => by_contra fun strays => not_inside_receive tracks strays inside
  · exact fun stays => (tracks_receive tracks stays).1

theorem tracks_start : Tracks side [] {} :=
  ⟨⟨rfl, rfl⟩, [], .handshake, [], .waits rfl, rfl, .inr ⟨rfl, rfl, rfl, .inl ⟨rfl, rfl⟩⟩⟩

/-- Once a byte outside was read or the program has ended, this stays so. -/
theorem inside_of_receive (c : WebSocketChannel) (arrival : Arrival)
    (inside : (c.receive (sender sends) side arrival).Inside) : c.Inside := by
  unfold receive at inside
  by_cases beyond : (c.closed || c.fault.isSome) = true
  · rw [if_pos beyond] at inside
    exact inside
  · rw [if_neg beyond] at inside
    rw [Bool.or_eq_true, not_or, Option.isSome_iff_ne_none, not_not] at beyond
    refine ⟨?_, beyond.2⟩
    have outside := inside.1
    unfold didReceiveData at outside
    cases memory : arrival.memory with
    | none =>
      rw [memory] at outside
      dsimp only at outside
      rw [fail_outside] at outside
      exact outside
    | some address =>
      rw [memory] at outside
      dsimp only at outside
      by_cases live : (!c.client) = true
      · rw [if_pos live, fail_outside] at outside
        exact outside
      · rw [if_neg live] at outside
        by_cases incomplete : c.handshake.mode = .incomplete
        · rw [if_pos incomplete] at outside
          cases read : c.handshake.readServerHandshake side (c.buffer ++ arrival.data)
              arrival.beyond with
          | none =>
            rw [read] at outside
            exact outside
          | some result =>
            rw [read] at outside
            dsimp only at outside
            have both : (c.outside || result.outside) = false := by
              split_ifs at outside
              · exact outside
              · rw [connected_outside] at outside
                exact outside
              · rw [fail_outside] at outside
                exact outside
            exact (Bool.or_eq_false_iff.mp both).1
        · rw [if_neg incomplete, receiveFrames_outside] at outside
          exact outside

/-- The channel after the pieces. -/
def received (client : Client) (side : ClientSide) (pieces : List Piece) : WebSocketChannel :=
  after (arrive client side) {} pieces

/-- The run stays inside the buffer exactly when every arrival can be read inside it. -/
theorem received_inside_iff (pieces : List Piece) :
    (received (sender sends) side pieces).Inside ↔
      Along (arrive (sender sends) side)
        (StaysInside side) {} pieces := by
  have lasting : ∀ (c : WebSocketChannel) (piece : Piece),
      (c.receive (sender sends) side piece.arrival).Inside → c.Inside :=
    fun c piece => inside_of_receive c piece.arrival
  have admitted : Along (arrive (sender sends) side)
      (fun _ _ => True) {} pieces := along_of_forall (fun _ _ => trivial) _ _
  refine (after_iff_along lasting {} pieces ⟨rfl, rfl⟩).trans (along_iff
    (fun c => ∃ input, c.Tracks side input) (fun c piece tracks _ => ?_)
    (fun c piece tracks _ inside => ?_) _ _ ⟨[], tracks_start⟩ admitted)
  · obtain ⟨input, tracks⟩ := tracks
    exact inside_receive_iff tracks
  · obtain ⟨input, tracks⟩ := tracks
    exact ⟨_, tracks_receive tracks ((inside_receive_iff tracks).mp inside)⟩

/-- While the run stays inside, what happened is what all that arrived says. -/
theorem received_tracks (pieces : List Piece) (c : WebSocketChannel) {input : List Byte}
    (tracks : c.Tracks side input)
    (stays : Along (arrive (sender sends) side)
      (StaysInside side) c pieces) :
    (after (arrive (sender sends) side) c
      pieces).Tracks side (input ++ (pieces.map Piece.data).flatten) := by
  induction pieces generalizing c input with
  | nil =>
    rw [List.map_nil, List.flatten_nil, List.append_nil]
    exact tracks
  | cons piece pieces ih =>
    rw [List.map_cons, List.flatten_cons, ← List.append_assoc]
    exact ih _ (tracks_receive tracks stays.1) stays.2

/-- However a server's bytes are cut into arrivals, only bytes that arrived are read and the client sees
what it sees when all arrive at once, exactly when every arrival can be read inside the buffer. -/
theorem chunk_independent_iff (sends : List Happening → List (List Byte)) (side : ClientSide)
    (pieces : List Piece) (address : Nat) (beyond : Byte) (closing : Closing) :
    ((received (sender sends) side pieces).Inside ∧
      (received (sender sends) side [⟨(pieces.map Piece.data).flatten, address, beyond,
        closing⟩]).Inside ∧
      (received (sender sends) side pieces).outcomes =
        (received (sender sends) side [⟨(pieces.map Piece.data).flatten, address, beyond,
          closing⟩]).outcomes) ↔
      Along (arrive (sender sends) side)
          (StaysInside side) {} pieces ∧
        StaysInside side {} ⟨(pieces.map Piece.data).flatten, address, beyond, closing⟩ := by
  rw [received_inside_iff, received_inside_iff]
  constructor
  · rintro ⟨stays, ⟨stays', -⟩, -⟩
    exact ⟨stays, stays'⟩
  · rintro ⟨stays, stays'⟩
    refine ⟨stays, ⟨stays', trivial⟩, ?_⟩
    obtain ⟨-, items, s, rest, reads, told, -⟩ := received_tracks pieces {} tracks_start stays
    obtain ⟨-, items', s', rest', reads', told', -⟩ := received_tracks
      [⟨(pieces.map Piece.data).flatten, address, beyond, closing⟩] {} tracks_start ⟨stays', trivial⟩
    rw [List.map_singleton, List.flatten_singleton] at reads'
    exact told.trans ((congrArg List.flatten (reads.unique reads').1).trans told'.symm)

end

def exampleSide : ClientSide where
  foldCase := id
  decode bytes := some (widen bytes)
  clientOrigin := widen (ascii "http://a")
  secure := false
  host := widen (ascii "a")
  port := 0
  path := widen (ascii "/")
  query := none
  clientProtocol := []
  cookiesEnabled := false

def exampleFields : List Byte :=
  webSocketConnectionHeader ++
    ascii "WebSocket-Origin: http://a\r\nWebSocket-Location: ws://a/\r\n\r\n"

/-- The handshake is cut before the last byte of its second line. -/
def cutUpgrade : List Piece :=
  [⟨webSocketServerHandshakeHeader ++ ascii "Upgrade: WebSocket\r", 0, 0, none⟩,
    ⟨ascii "\n" ++ exampleFields, 0, 0, none⟩]

/-- The byte behind the buffer is taken for the last one of the line, and the connection fails. -/
theorem not_chunk_independent : ¬∀ (sends : List Happening → List (List Byte)) (side : ClientSide)
    (pieces : List Piece) (address : Nat) (beyond : Byte) (closing : Closing),
    (received (sender sends) side pieces).outside = false ∧
      (received (sender sends) side pieces).outcomes =
        (received (sender sends) side [⟨(pieces.map Piece.data).flatten, address, beyond,
          closing⟩]).outcomes := by
  intro always
  obtain ⟨-, same⟩ := always (fun _ => []) exampleSide cutUpgrade 0 0 none
  revert same
  decide +kernel

end WebSocketChannel

end WkcBrowser.WebSockets
