import WkcBrowser.WebSockets.WebSocketHandshake

/-! `WebSocketChannel`: what arrives is appended to a buffer, from which the handshake and the frames are
taken. The client is told of the connection and of each message, and may call the channel from there. -/

namespace WkcBrowser.WebSockets

open Wtf

inductive Notification where
  | didConnect
  | didReceiveMessage (message : Option Text)
  | didClose
deriving DecidableEq

/-- `failed` is a call of `handle->close()` by `didReceiveData`. -/
inductive Happening where
  | notified (notification : Notification)
  | disconnected
  | failed
deriving DecidableEq

/-- What ends the program: a call through a null client, a null header name that is hashed, more bytes
skipped than there are, a frame beyond the end of the address space. -/
inductive Fault where
  | nullClient
  | nullName
  | overrun
  | wild
deriving DecidableEq

/-- What closing the handle does: nothing yet, or a call of `didClose` with so many bytes not sent. -/
abbrev Closing := Option Nat

/-- A message to send is given in UTF-8. -/
inductive ClientOperation where
  | send (message : List Byte)
  | close (closing : Closing)
  | disconnect (closing : Closing)
deriving DecidableEq

/-- `client` and `handle` tell that these pointers are not null. The fields from `closed` on only record:
that the handle was closed, what happened, what went to the console and to the cookies, the frames taken
in the last call of `didReceiveData`, whether a byte was read that did not arrive, and what ended the
program. -/
structure WebSocketChannel where
  client : Bool := true
  handle : Bool := true
  handshake : WebSocketHandshake := {}
  buffer : List Byte := []
  unhandledBufferSize : Nat := 0
  closed : Bool := false
  trace : List Happening := []
  messages : List Text := []
  cookies : List Text := []
  processed : List Byte := []
  outside : Bool := false
  fault : Option Fault := none
deriving DecidableEq

/-- What a client does in its handlers, from what has happened so far. -/
abbrev Client := List Happening → List ClientOperation

/-- The data that arrives, the address of the new buffer unless there is no memory, the byte that follows
it, and what closing the handle does. -/
structure Arrival where
  data : List Byte
  memory : Option Nat
  beyond : Byte
  closing : Closing := none

/-- `length` is the sum so far. There is no result on overflow. -/
def readLength (length : Nat) : List Byte → Option (Nat × List Byte)
  | [] => some (length, [])
  | msgByte :: p =>
    if length > (2 ^ 31 - 1) / 128 then none
    else
      let length := length * 128 + (msgByte &&& 0x7f).toNat
      if msgByte &&& 0x80 = 0 then some (length, p) else readLength length p

inductive FrameRead where
  | overflow
  | wild
  | incomplete
  | frame (message : Option (List Byte)) (rest : List Byte)
deriving DecidableEq

/-- A turn of the frame loop; `end_` is the address of the end. A sum that wraps around is an address below
the buffer. -/
def readFrame (end_ : Nat) (frameByte : Byte) (p : List Byte) : FrameRead :=
  if frameByte &&& 0x80 = 0x80 then
    match readLength 0 p with
    | none => .overflow
    | some (length, p) =>
      if 2 ^ 32 ≤ end_ - p.length + length then .wild
      else if length < p.length then .frame none (p.drop length)
      else .incomplete
  else
    match p.dropWhile (· ≠ 0xff) with
    | [] => .incomplete
    | _ :: rest => .frame (if frameByte = 0 then some (p.takeWhile (· ≠ 0xff)) else none) rest

theorem readLength_suffix {length length' : Nat} {p rest : List Byte}
    (read : readLength length p = some (length', rest)) : rest <:+ p := by
  induction p generalizing length with
  | nil =>
    cases read
    exact List.suffix_refl _
  | cons msgByte p ih =>
    unfold readLength at read
    by_cases beyond : length > (2 ^ 31 - 1) / 128
    · rw [if_pos beyond] at read
      cases read
    · rw [if_neg beyond] at read
      dsimp only at read
      by_cases last : msgByte &&& 0x80 = 0
      · rw [if_pos last] at read
        cases read
        exact List.suffix_cons _ _
      · rw [if_neg last] at read
        exact (ih read).trans (List.suffix_cons _ _)

theorem readFrame_suffix {end_ : Nat} {frameByte : Byte} {p rest : List Byte}
    {message : Option (List Byte)} (read : readFrame end_ frameByte p = .frame message rest) :
    rest <:+ p := by
  unfold readFrame at read
  by_cases counted : frameByte &&& 0x80 = 0x80
  · rw [if_pos counted] at read
    cases counting : readLength 0 p with
    | none =>
      rw [counting] at read
      cases read
    | some pair =>
      obtain ⟨length, p'⟩ := pair
      rw [counting] at read
      dsimp only at read
      split_ifs at read
      cases read
      exact (List.drop_suffix _ _).trans (readLength_suffix counting)
  · rw [if_neg counted] at read
    have behind := List.dropWhile_suffix (l := p) fun c => decide (c ≠ 0xff)
    cases left : p.dropWhile fun c => decide (c ≠ 0xff) with
    | nil =>
      rw [left] at read
      cases read
    | cons c rest' =>
      rw [left] at read behind
      cases read
      exact (List.suffix_cons _ _).trans behind

namespace WebSocketChannel
variable (client : Client) (c : WebSocketChannel)

/-- `closeHandle` is what `m_handle->close()` does. -/
def operate (closeHandle : Closing → WebSocketChannel → WebSocketChannel) (c : WebSocketChannel) :
    ClientOperation → WebSocketChannel
  | .send message =>
    if c.handle then c
    else { c with unhandledBufferSize := c.unhandledBufferSize + message.length + 2 }
  | .close closing => if c.handle then closeHandle closing c else c
  | .disconnect closing =>
    let c := { c with client := false, trace := c.trace ++ [.disconnected] }
    if c.handle then closeHandle closing c else c

/-- No handle is left that the client can close from its own `didClose`. -/
def didClose (bufferedAmount : Nat) : WebSocketChannel :=
  if c.handle then
    let closed := { c with unhandledBufferSize := bufferedAmount, client := false, handle := false }
    if c.client then
      let told := { closed with trace := c.trace ++ [.notified .didClose] }
      (client told.trace).foldl (operate fun _ c => c) told
    else closed
  else c

def closeHandle (closing : Closing) (c : WebSocketChannel) : WebSocketChannel :=
  let c := { c with closed := true }
  match closing with
  | none => c
  | some bufferedAmount => c.didClose client bufferedAmount

def notify (notification : Notification) : WebSocketChannel :=
  let c := { c with trace := c.trace ++ [.notified notification] }
  (client c.trace).foldl (operate (closeHandle client)) c

def fail (closing : Closing) : WebSocketChannel :=
  closeHandle client closing { c with trace := c.trace ++ [.failed] }

def skipBuffer (len : Nat) : WebSocketChannel := { c with buffer := c.buffer.drop len }

/-- The frame loop, with what is left of the buffer when it comes to its end. -/
def readFrames (side : ClientSide) (closing : Closing) (end_ : Nat) (c : WebSocketChannel)
    (nextFrame : List Byte) : WebSocketChannel × Option (List Byte) :=
  match nextFrame with
  | [] => (c, some [])
  | frameByte :: p =>
    match _read : readFrame end_ frameByte p with
    | .overflow => (c.fail client closing, none)
    | .wild => ({ c with fault := some .wild }, none)
    | .incomplete => (c, some (frameByte :: p))
    | .frame message rest =>
      let taken := { c with
        processed := c.processed ++ (frameByte :: p).take ((frameByte :: p).length - rest.length) }
      match message with
      | none => readFrames side closing end_ taken rest
      | some bytes =>
        if c.client then
          readFrames side closing end_ (taken.notify client (.didReceiveMessage (side.decode bytes))) rest
        else ({ c with fault := some .nullClient }, none)
  termination_by nextFrame.length
  decreasing_by
    all_goals
      have shorter := (readFrame_suffix _read).length_le
      exact Nat.lt_succ_of_le shorter

def receiveFrames (side : ClientSide) (closing : Closing) (address : Nat) : WebSocketChannel :=
  if c.handshake.mode ≠ .connected then c
  else
    match c.readFrames client side closing (address + c.buffer.length) c.buffer with
    | (c, none) => c
    | (c, some nextFrame) => c.skipBuffer (c.buffer.length - nextFrame.length)

def storeCookie (side : ClientSide) : WebSocketChannel :=
  if side.cookiesEnabled then
    { c with cookies := c.cookies ++ (c.handshake.setCookie.filter (· ≠ [])).toList }
  else c

/-- The handshake is read and the client told. -/
def connected (side : ClientSide) (closing : Closing) (address headerLength : Nat) :
    WebSocketChannel :=
  let c := (c.storeCookie side).notify client .didConnect
  if c.buffer.length < headerLength then { c with fault := some .overrun }
  else
    let c := { c with processed := c.processed ++ c.buffer.take headerLength }.skipBuffer headerLength
    if c.buffer = [] then c
    else c.receiveFrames client side closing address

def didReceiveData (side : ClientSide) (arrival : Arrival) : WebSocketChannel :=
  let c := { c with processed := [] }
  match arrival.memory with
  | none =>
    let tooLong := ascii "WebSocket frame (at " ++
      ascii (Nat.repr (c.buffer.length + arrival.data.length)) ++ ascii " bytes) is too long."
    { c with messages := c.messages ++ [widen tooLong] }.fail client arrival.closing
  | some address =>
    let c := { c with buffer := c.buffer ++ arrival.data }
    if !c.client then c.fail client arrival.closing
    else if c.handshake.mode = .incomplete then
      match c.handshake.readServerHandshake side c.buffer arrival.beyond with
      | none => { c with fault := some .nullName }
      | some read =>
        let c := { c with
          handshake := read.handshake
          messages := c.messages ++ read.message.toList
          outside := c.outside || read.outside }
        if read.headerLength ≤ 0 then c
        else if read.handshake.mode = .connected then
          c.connected client side arrival.closing address read.headerLength.toNat
        else c.fail client arrival.closing
    else c.receiveFrames client side arrival.closing address

end WebSocketChannel

end WkcBrowser.WebSockets
