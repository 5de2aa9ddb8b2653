import WkcBrowser.Network.Callbacks

/-! The turns of the network manager: starting the jobs that wait, letting curl run, reading its
messages and what the application calls from outside. -/

namespace WkcBrowser.Network

open Wtf Lib.Interaction Program
open Lib.Loop (Turn)

section
variable (platform : Platform) (job : Nat)

/-- The media type and the data of a `data:` URL, and whether the data is in base64. -/
def splitDataUrl (url : Text) (index : Nat) : Text × Text × Bool :=
  let mediaType := (url.drop 5).take (index - 5)
  let data := url.drop (index + 1)
  let base64 := equalIgnoringCase (text ";base64") (mediaType.drop (mediaType.length - 7))
  let mediaType := if base64 then mediaType.take (mediaType.length - 7) else mediaType
  let mediaType := if mediaType = [] then text "text/plain;charset=US-ASCII" else mediaType
  (mediaType, data, base64)

/-- The bytes of UTF-16 code units, in the order of a little endian machine. -/
def unitBytes (data : Text) : List Byte :=
  data.flatMap fun c : UChar => [c.toUInt8, (c >>> 8).toUInt8]

/-- `String::latin1`. -/
def latin1 (value : Text) : List Byte :=
  value.map fun c => if 255 < c then 63 else c.toUInt8

/-- What a `data:` URL holds goes to the client at once. -/
def deliverDataUrl (response : ResourceResponse) (out : List Byte) : Procedure Unit := do
  notify platform job (.didReceiveResponse response)
  if (← internal job).cancelled then return ()
  let client := (← internal job).client
  if client && !out.isEmpty then
    notify platform job (.willReceiveData out.length)
    if (← internal job).cancelled then return ()
    notify platform job (.didReceiveData out)
    if (← internal job).cancelled then return ()
  if client then
    notify platform job .didFinishLoading

def parseDataUrl : Procedure Unit := do
  let d ← internal job
  if !d.client then return ()
  let url := d.request.url
  match find [44] url with
  | none => notify platform job .cannotShowURL
  | some index =>
    let (mediaType, data, base64) := splitDataUrl url index
    let charset := extractCharsetFromMediaType mediaType
    let response : ResourceResponse := {
      mimeType := extractMIMETypeFromMediaType mediaType
      textEncodingName := if base64 then charset else text "UTF-16" }
    let out :=
      if base64 then
        (platform.base64Decode (latin1 (platform.decodeURLEscapeSequences data []))).getD []
      else unitBytes (platform.decodeURLEscapeSequences data charset)
    deliverDataUrl platform job response out

def easyInitEvent (_ : ResourceHandleManager) : Event → Option Bool
  | .easyInit found => some found
  | _ => none

def multiAddEvent (_ : ResourceHandleManager) : Event → Option CURLMcode
  | .multiAdd ret => some ret
  | _ => none

def isLocalFile (url : Text) : Bool :=
  equalIgnoringCase (platform.protocol url) (text "file")

/-- The URL that is given to curl. -/
def urlForCurl (url : Text) : Text :=
  if isLocalFile platform url ∧ platform.query url ≠ [] then
    match find (platform.query url) url with
    | some queryIndex => url.take (queryIndex - 1)
    | none => url
  else url

def initializeHandle : Procedure Unit := do
  let found ← await easyInitEvent
  write job fun d => { d with handle := found }
  if !found then return ()
  write job fun d => { d with
    cancelled := false
    response :=
      if isLocalFile platform d.request.url then
        { d.response with
          mimeType := platform.getMIMETypeForPath (urlForCurl platform d.request.url) }
      else d.response
    isSSL := d.isSSL || equalIgnoringCase (platform.protocol d.request.url) (text "https")
    url := urlForCurl platform d.request.url }

/-- `curl_multi_add_handle`, which either adds the transfer or fails. -/
def curlMultiAdd : Procedure CURLMcode := do
  let ret ← await multiAddEvent
  match ret with
  | .error _ => return ret
  | _ =>
    update fun m => m.curlMultiAddHandle job
    return ret

def startJob : Procedure Unit := do
  let kurl := (← internal job).request.url
  if equalIgnoringCase (platform.protocol kurl) (text "data") then
    parseDataUrl platform job
    update fun m => m.cancel job
  else
    initializeHandle platform job
    if !(← internal job).handle then
      update fun m => m.cancel job
    else
      match ← curlMultiAdd job with
      | .error _ => update fun m => m.cancel job
      | _ => update fun m => m.appendRunningJob job

/-- A turn of the loop of `startScheduledJobs`, which knows whether a job was started. -/
def startTurn (started : Bool) : Procedure (Turn Bool Bool) := do
  let m ← read id
  if m.scheduledJobList = [] ∨ m.tcpConnections.1 ≤ m.runningJobList.length then
    return .done started
  if m.willChallengeProxyAuth ∧ 0 < m.runningJobList.length then
    return .done started
  match m.shiftScheduledJob with
  | none => return .done true
  | some (job, m) =>
    update fun _ => m.take job
    startJob platform job
    if (← internal job).cancelled then
      update fun m => m.leak job
      write job fun d => { d with handle := false }
      update fun m => { m.deref job with starting := none }
      return .again started
    update fun m => { m with starting := none }
    return .again true

def startScheduledJobs : Procedure Bool :=
  loop ResourceHandleManager.work (startTurn platform) false

/-- The transfers whose messages wait. -/
def ResourceHandleManager.isFinished (m : ResourceHandleManager) (job : Nat) : Bool :=
  m.messages.any fun message => message.1 = job

/-- What curl may report from `curl_multi_perform`. -/
def performEvent (m : ResourceHandleManager) (event : Event) : Option Event :=
  match event with
  | .header job _ _ | .finished job _ =>
    if job ∈ m.multi ∧ !m.isFinished job then some event else none
  | .body job _ =>
    if (job ∈ m.multi ∧ !m.isFinished job) ∧ (m.jobs job).transfer.ended then some event else none
  | .performed => some event
  | _ => none

/-- curl has received a line of a header. The first line after a blank one begins a response. -/
def Transfer.receive (line : List Byte) (info : Info) (transfer : Transfer) : Transfer :=
  { info
    block := if transfer.ended then [line] else transfer.block ++ [line]
    ended := isBlank line
    blocks := if transfer.ended then transfer.blocks + 1 else transfer.blocks }

def performTurn (_ : Unit) : Procedure (Turn Unit Unit) := do
  match ← await performEvent with
  | .header job line info =>
    update fun m => m.change job fun handle =>
      { handle with transfer := handle.transfer.receive line info }
    let _ ← headerCallback platform job line
    return .again ()
  | .body job data =>
    let _ ← writeCallback platform job data
    return .again ()
  | .finished job result =>
    update fun m => { m with messages := m.messages ++ [(job, result)] }
    return .again ()
  | _ => return .done ()

/-- `curl_multi_perform`, called until it no longer asks for it. The result is the number of
transfers that are still running. -/
def curlMultiPerform : Procedure Nat := do
  loop ResourceHandleManager.work (performTurn platform) ()
  read fun m => (m.multi.filter fun job => !m.isFinished job).length

/-- The end of `removeFromCurl`. -/
def leaveCurl : Procedure Unit := do
  update fun m => (m.removeRunningJob job).curlMultiRemoveHandle job
  write job fun d => { d with handle := false }
  update fun m => m.flushCookies
  update fun m => m.deref job

/-- The transfer is added once more with the credentials that answer the challenge. -/
def repeatTransfer (httpcode : Nat) : Procedure Unit := do
  update fun m => (m.enter (.repeated job (m.jobs job).transfer)).curlMultiRemoveHandle job
  if httpcode = 407 then
    update fun m => { m with proxyUser := [], proxyPass := [] }
  let _ ← curlMultiAdd job
  if !(← read (·.downloadTimer)) then
    update fun m => m.startOneShot

/-- The code of the response, which is the one of the proxy where there is none. -/
def challengeCode (isSSL : Bool) (info : Info) : Nat :=
  if info.responseCode = 0 ∧ isSSL then info.connectCode else info.responseCode

def removeFromCurl : Procedure Unit := do
  let d ← internal job
  if !d.handle then return ()
  if d.webChallenge.isSome && d.doAuthChallenge then
    let httpcode := challengeCode d.isSSL (← getinfo job)
    let proxy ← read (·.proxy)
    write job fun d => { d with doAuthChallenge := false }
    if httpcode = 407 ∧ proxy.length = 0 then
      leaveCurl job
    else if httpcode = 401 ∨ httpcode = 407 then
      repeatTransfer job httpcode
    else
      leaveCurl job
  else
    leaveCurl job

/-- What a message of curl leads to, which says that a transfer is done. -/
def transferDone (result : Nat) : Procedure Unit := do
  let d ← internal job
  if d.cancelled || d.doAuthChallenge then
    removeFromCurl job
    return ()
  if result = 0 then
    if !d.response.responseFired then
      handleLocalReceiveResponse platform job
      let d ← internal job
      if d.cancelled || d.doAuthChallenge then
        removeFromCurl job
        return ()
    notifyClient platform job .didFinishLoading
  else
    notifyClient platform job (.didFail result)
  removeFromCurl job

/-- A turn of the loop that reads the messages of curl. -/
def messageTurn (_ : Unit) : Procedure (Turn Unit Unit) := do
  match ← read (·.messages) with
  | [] => return .done ()
  | (job, result) :: messages =>
    update fun m => { m with messages }
    transferDone platform job result
    return .again ()

def downloadTimerCallback : Procedure Unit := do
  let _ ← startScheduledJobs platform
  let runningHandles ← curlMultiPerform platform
  loop ResourceHandleManager.work (messageTurn platform) ()
  update fun m => m.cancelScheduledJobs
  -- new jobs might have been added in the meantime
  let started ← startScheduledJobs platform
  if !(← read (·.downloadTimer)) && (started || decide (0 < runningHandles)) then
    update fun m => m.startOneShot

/-- What a client does while it is not called. -/
def actOutside (m : ResourceHandleManager) (event : Event) : ResourceHandleManager :=
  match clientEvent m event with
  | some act => clientAct platform m act
  | none => m

/-- What reaches the manager between two turns of the engine's event loop. -/
def dispatch : Event → Procedure Unit
  | .timer => do
    if ← read (·.downloadTimer) then
      update fun m => { m with downloadTimer := false }
      downloadTimerCallback platform
  | .setProxyInfo host port username password auth =>
    update fun m => m.setProxyInfo host port username password auth
  | .setMaxTCPConnections number => update fun m => m.setMaxTCPConnections number
  | event => update fun m => actOutside platform m event

end

end WkcBrowser.Network
