import WkcBrowser.Wtf.StringImpl

/-! `WebSocketHandshake`: the server's answer to the opening handshake is read anew from the start of the
buffer at every arrival. The end that the code computes is one byte behind the buffer, so that the
characters it sees are those of the buffer and the byte that follows in memory. -/

namespace WkcBrowser.WebSockets

open Wtf

def webSocketServerHandshakeHeader : List Byte := ascii "HTTP/1.1 101 Web Socket Protocol Handshake\r\n"
def webSocketUpgradeHeader : List Byte := ascii "Upgrade: WebSocket\r\n"
def webSocketConnectionHeader : List Byte := ascii "Connection: Upgrade\r\n"

def carriageReturn : Byte := 13
def lineFeed : Byte := 10
def colon : Byte := 58
def space : Byte := 32

/-- The code between the first two spaces of the first line; null while the line is not complete. -/
def extractResponseCode (header : List Byte) : Option (List Byte) :=
  if lineFeed ∉ header then none
  else
    let line := header.takeWhile (· ≠ lineFeed)
    let afterSpace := (line.dropWhile (· ≠ space)).drop 1
    if space ∈ afterSpace then some (afterSpace.takeWhile (· ≠ space)) else some []

/-- The page's side of the connection; `decode` is `UTF8Encoding().decode`, `host` is lower case, and
cookies are enabled for a document only. -/
structure ClientSide where
  foldCase : UChar → UChar
  decode : List Byte → Option Text
  clientOrigin : Text
  secure : Bool
  host : Text
  port : Nat
  path : Text
  query : Option Text
  clientProtocol : Text
  cookiesEnabled : Bool

namespace ClientSide
variable (side : ClientSide)

def resourceName : Text :=
  match side.query with
  | none => side.path
  | some query => side.path ++ widen (ascii "?") ++ query

def clientLocation : Text :=
  widen (ascii (if side.secure then "wss" else "ws")) ++ widen (ascii "://") ++ side.host ++
    (if side.port ≠ 0 ∧ (!side.secure && side.port ≠ 80 || side.secure && side.port ≠ 443) then
      widen (ascii ":") ++ widen (ascii (Nat.repr side.port))
    else []) ++ side.resourceName

/-- The buffer of an empty `Vector` is null, and so is the string made from it. -/
def fromUTF8 (bytes : List Byte) : Option Text :=
  if bytes = [] then none else side.decode bytes

end ClientSide

/-- The keys are apart when their case is folded. -/
abbrev HTTPHeaderMap := List (Text × Option Text)

/-- An entry that exists is kept. -/
def HTTPHeaderMap.add (side : ClientSide) (headers : HTTPHeaderMap) (name : Text)
    (value : Option Text) : HTTPHeaderMap :=
  if headers.any fun entry => entry.1.map side.foldCase = name.map side.foldCase then headers
  else headers ++ [(name, value)]

/-- The loops of `readHTTPHeaders`. -/
inductive HeaderPlace where
  | name (name : List Byte)
  | spaces (name : List Byte)
  | value (name value : List Byte)
  | lineFeed (name value : List Byte)
deriving DecidableEq

/-- `nullName` is the hash of a null string, which is read through its null pointer. -/
inductive HeadersRead where
  | failed (message : Option Text)
  | read (headers : HTTPHeaderMap) (rest : List Byte)
  | nullName
deriving DecidableEq

def lowerName (c : Byte) : Byte := if 0x41 ≤ c ∧ c ≤ 0x5a then c + 0x20 else c

section
variable (side : ClientSide)

/-- The message has the characters up to the end. -/
def failAt (message : String) (p : List Byte) : HeadersRead :=
  .failed (some (widen (ascii message ++ p)))

def readHTTPHeaders (headers : HTTPHeaderMap) : HeaderPlace → List Byte → HeadersRead
  | .name [], [] => .failed none
  | _, [] => failAt "CR doesn't follow LF after value at " []
  | .name name, c :: rest =>
    if c = carriageReturn then
      if name = [] then
        match rest with
        | [] => failAt "CR doesn't follow LF at " (c :: rest)
        | next :: rest' =>
          if next = lineFeed then .read headers rest'
          else failAt "CR doesn't follow LF at " (c :: rest)
      else failAt "Unexpected CR in name at " (c :: rest)
    else if c = lineFeed then failAt "Unexpected LF in name at " (c :: rest)
    else if c = colon then readHTTPHeaders headers (.spaces name) rest
    else readHTTPHeaders headers (.name (name ++ [lowerName c])) rest
  | .spaces name, c :: rest =>
    if c = space then readHTTPHeaders headers (.spaces name) rest
    else if c = carriageReturn then readHTTPHeaders headers (.lineFeed name []) rest
    else if c = lineFeed then failAt "Unexpected LF in value at " (c :: rest)
    else readHTTPHeaders headers (.value name [c]) rest
  | .value name value, c :: rest =>
    if c = carriageReturn then readHTTPHeaders headers (.lineFeed name value) rest
    else if c = lineFeed then failAt "Unexpected LF in value at " (c :: rest)
    else readHTTPHeaders headers (.value name (value ++ [c])) rest
  | .lineFeed name value, c :: rest =>
    if c = lineFeed then
      match side.fromUTF8 name with
      | none => .nullName
      | some nameStr =>
        readHTTPHeaders (headers.add side nameStr (side.fromUTF8 value)) (.name []) rest
    else failAt "CR doesn't follow LF after value at " (c :: rest)

end

/-- Whether a blank line was found, and whether the last byte, or one behind it, was read. -/
structure Found where
  found : Bool
  outside : Bool
deriving DecidableEq

/-- `strnstr(p, "\r\n\r\n", end - p)`. -/
def findBlankLine : List Byte → Found
  | [] => ⟨false, true⟩
  | c :: rest =>
    if c = 0 then ⟨false, rest.isEmpty⟩
    else
      match rest with
      | c₁ :: c₂ :: c₃ :: rest' =>
        if c = carriageReturn ∧ c₁ = lineFeed ∧ c₂ = carriageReturn then
          if c₃ = lineFeed then ⟨true, rest'.isEmpty⟩
          else if rest' = [] then ⟨false, true⟩
          else findBlankLine rest
        else findBlankLine rest
      | rest => ⟨false, rest.isEmpty⟩

inductive Mode where
  | incomplete
  | normal
  | failed
  | connected
deriving DecidableEq

structure WebSocketHandshake where
  mode : Mode := .incomplete
  wsOrigin : Option Text := none
  wsLocation : Option Text := none
  wsProtocol : Option Text := none
  setCookie : Option Text := none
  setCookie2 : Option Text := none
deriving DecidableEq

/-- What a call of `readServerHandshake` returns, the message it adds to the console, and whether it read
a byte that did not arrive. -/
structure HandshakeRead where
  handshake : WebSocketHandshake
  headerLength : Int
  message : Option Text := none
  outside : Bool := false
deriving DecidableEq

namespace WebSocketHandshake
variable (side : ClientSide) (handshake : WebSocketHandshake)

def processHeader (entry : Text × Option Text) : WebSocketHandshake :=
  if entry.1 = widen (ascii "websocket-origin") then { handshake with wsOrigin := entry.2 }
  else if entry.1 = widen (ascii "websocket-location") then { handshake with wsLocation := entry.2 }
  else if entry.1 = widen (ascii "websocket-protocol") then { handshake with wsProtocol := entry.2 }
  else if entry.1 = widen (ascii "set-cookie") then { handshake with setCookie := entry.2 }
  else if entry.1 = widen (ascii "set-cookie2") then { handshake with setCookie2 := entry.2 }
  else handshake

def processHeaders (headers : HTTPHeaderMap) : WebSocketHandshake :=
  headers.foldl processHeader handshake

/-- The mode of a handshake whose headers are read, with the message of one that fails. -/
def checkResponseHeaders : WebSocketHandshake × Option Text :=
  let handshake := { handshake with mode := .failed }
  let failed message := (handshake, some (widen (ascii "Error during WebSocket handshake: ") ++ message))
  match handshake.wsOrigin with
  | none => failed (widen (ascii "'websocket-origin' header is missing"))
  | some wsOrigin =>
    match handshake.wsLocation with
    | none => failed (widen (ascii "'websocket-location' header is missing"))
    | some wsLocation =>
      if side.clientOrigin ≠ wsOrigin then
        failed (widen (ascii "origin mismatch: ") ++ side.clientOrigin ++ widen (ascii " != ") ++ wsOrigin)
      else if side.clientLocation ≠ wsLocation then
        failed (widen (ascii "location mismatch: ") ++ side.clientLocation ++ widen (ascii " != ") ++
          wsLocation)
      else if side.clientProtocol ≠ [] ∧ some side.clientProtocol ≠ handshake.wsProtocol then
        failed (widen (ascii "protocol mismatch: ") ++ side.clientProtocol ++ widen (ascii " != ") ++
          handshake.wsProtocol.getD [])
      else ({ handshake with mode := .connected }, none)

/-- The answer of a server that does not switch protocols. -/
def readResponseCode (header : List Byte) : HandshakeRead :=
  match extractResponseCode header with
  | none =>
    { handshake := { handshake with mode := .incomplete }, headerLength := -1
      message := some (widen (ascii "Short server handshake: " ++ header)) }
  | some code =>
    { handshake := { handshake with mode := .failed }, headerLength := header.length
      message := some (widen (
        if code = [] then ascii "No response code found: " ++ header
        else if code = ascii "401" then ascii "Authentication required, but not implemented yet."
        else ascii "Unexpected response code:" ++ code)) }

/-- The headers behind the three fixed lines; `p` ends with the byte behind the buffer. -/
def readFields (len : Nat) (p : List Byte) : Option HandshakeRead :=
  let blankLine := findBlankLine p
  if !blankLine.found then
    some { handshake := { handshake with mode := .incomplete }, headerLength := -1
           outside := blankLine.outside }
  else
    match readHTTPHeaders side [] (.name []) p with
    | .nullName => none
    | .failed message =>
      some { handshake := { handshake with mode := .failed }, headerLength := len
             message := message, outside := true }
    | .read headers rest =>
      let (handshake, message) := (handshake.processHeaders headers).checkResponseHeaders side
      some { handshake := handshake, headerLength := len + 1 - rest.length, message := message
             outside := blankLine.outside || rest.isEmpty }

/-- There is no result when a null name is hashed. -/
def readServerHandshake (header : List Byte) (beyond : Byte) : Option HandshakeRead :=
  let handshake := { handshake with mode := .incomplete }
  let len := header.length
  if len < webSocketServerHandshakeHeader.length then some ⟨handshake, -1, none, false⟩
  else if header.take webSocketServerHandshakeHeader.length ≠ webSocketServerHandshakeHeader then
    some (handshake.readResponseCode header)
  else
    let p := (header ++ [beyond]).drop webSocketServerHandshakeHeader.length
    if p.length < webSocketUpgradeHeader.length then some ⟨handshake, 0, none, false⟩
    else if p.take webSocketUpgradeHeader.length ≠ webSocketUpgradeHeader then
      some ⟨{ handshake with mode := .failed },
        webSocketServerHandshakeHeader.length + webSocketUpgradeHeader.length,
        some (widen (ascii "Bad Upgrade header: " ++ p)), true⟩
    else
      let outside := decide (p.length = webSocketUpgradeHeader.length)
      let p := p.drop webSocketUpgradeHeader.length
      if p.length < webSocketConnectionHeader.length then some ⟨handshake, -1, none, outside⟩
      else if p.take webSocketConnectionHeader.length ≠ webSocketConnectionHeader then
        some ⟨{ handshake with mode := .failed },
          webSocketServerHandshakeHeader.length + webSocketUpgradeHeader.length +
            webSocketConnectionHeader.length,
          some (widen (ascii "Bad Connection header: " ++ p)), true⟩
      else
        let outside := outside || decide (p.length = webSocketConnectionHeader.length)
        (handshake.readFields side len (p.drop webSocketConnectionHeader.length)).map fun read =>
          { read with outside := outside || read.outside }

end WebSocketHandshake

end WkcBrowser.WebSockets
