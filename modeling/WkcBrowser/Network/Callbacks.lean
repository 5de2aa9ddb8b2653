import WkcBrowser.Network.ResourceHandleManager

/-! The functions through which curl reports on a transfer and the calls of the client they make. A
client may add jobs, cancel jobs and answer challenges before it returns. -/

namespace WkcBrowser.Network

open Wtf Lib.Interaction Program
open Lib.Loop (Turn)

/-- The jobs and messages that wait. -/
def ResourceHandleManager.work (m : ResourceHandleManager) : Nat :=
  m.scheduledJobList.length + m.messages.length

def internal (job : Nat) : Procedure ResourceHandleInternal :=
  read fun m => (m.jobs job).d

def write (job : Nat) (f : ResourceHandleInternal → ResourceHandleInternal) : Procedure Unit :=
  update fun m => m.write job f

def getinfo (job : Nat) : Procedure Info :=
  read fun m => (m.jobs job).transfer.info

/-- What a client may do at any time. -/
def clientAct (platform : Platform) (m : ResourceHandleManager) : Event → ResourceHandleManager
  | .add request => m.add platform request
  | .cancel job => (m.enter (.cancelled job)).cancel job
  | .releaseClient job => (m.enter (.released job)).write job fun d => { d with client := false }
  | .receivedCredential job challenge credential => m.receivedCredential job challenge credential
  | .receivedRequestToContinueWithoutCredential job challenge =>
    m.receivedRequestToContinueWithoutCredential job challenge
  | .receivedProxyCredential job credential => m.receivedProxyCredential job credential
  | .clearCookies => m.requestClearCookies
  | _ => m

/-- The event of a client, which knows only jobs that were created. -/
def clientEvent (m : ResourceHandleManager) : Event → Option Event
  | .add request => some (.add request)
  | .cancel job => if job < m.created then some (.cancel job) else none
  | .releaseClient job => if job < m.created then some (.releaseClient job) else none
  | .receivedCredential job challenge credential =>
    if job < m.created then some (.receivedCredential job challenge credential) else none
  | .receivedRequestToContinueWithoutCredential job challenge =>
    if job < m.created then some (.receivedRequestToContinueWithoutCredential job challenge)
    else none
  | .receivedProxyCredential job credential =>
    if job < m.created then some (.receivedProxyCredential job credential) else none
  | .clearCookies => some .clearCookies
  | .leave => some .leave
  | _ => none

def clientTurn (platform : Platform) (_ : Unit) : Procedure (Turn Unit Unit) := do
  let event ← await clientEvent
  if event = .leave then return .done ()
  update fun m => clientAct platform m event
  return .again ()

/-- A call of the client of a job. -/
def notify (platform : Platform) (job : Nat) (notice : Notice) : Procedure Unit := do
  update fun m => m.enter (.notice job notice (m.jobs job).transfer)
  loop ResourceHandleManager.work (clientTurn platform) ()

section
variable (platform : Platform) (job : Nat)

/-- `if (d->client()) d->client()->…`. -/
def notifyClient (notice : Notice) : Procedure Unit := do
  if (← internal job).client then
    notify platform job notice

def serverTypeOf (proxy : Bool) (url : Text) : ProtectionSpaceServerType :=
  if platform.protocol url = text "http" then (if proxy then .proxyHTTP else .http)
  else (if proxy then .proxyHTTPS else .https)

def authenticationScheme (avail : Nat) : AuthenticationScheme :=
  if avail &&& curlAuthDigest ≠ 0 then .httpDigest
  else if avail &&& curlAuthNTLM ≠ 0 then .ntlm
  else if avail ≠ 0 then .httpBasic
  else .default

/-- `ResourceHandle::didReceiveAuthenticationChallenge`. -/
def didReceiveAuthenticationChallenge : Procedure Unit := do
  let d ← internal job
  if (d.response.httpHeaderField platform (text "WWW-Authenticate")).isNone then return ()
  let info ← getinfo job
  let challenge : AuthenticationChallenge := {
    serverType := serverTypeOf platform false d.request.url
    scheme := authenticationScheme info.httpAuthAvail
    proposedCredential := (d.webChallenge.map (·.proposedCredential)).getD {}
    failureResponse := d.response }
  write job fun d => { d with webChallenge := some challenge }
  if info.authProblem then
    notifyClient platform job (.didReceiveAuthenticationChallenge challenge)

def proxyAuthenticationScheme (auth : Nat) : AuthenticationScheme :=
  if auth = curlAuthDigest then .httpDigest
  else if auth = curlAuthNTLM then .ntlm
  else if auth = curlAuthBasic then .httpBasic
  else .default

/-- `ResourceHandleManager::didReceiveProxyAuthChallenge` and
`ResourceHandle::didReceiveProxyAuthenticationChallenge`. -/
def didReceiveProxyAuthChallenge : Procedure Unit := do
  let d ← internal job
  if (d.response.httpHeaderField platform (text "Proxy-Authenticate")).isNone then return ()
  let info ← getinfo job
  let auth ← read (·.proxyAuth)
  if info.proxyAuthAvail &&& auth = 0 then return ()
  if (← read (·.proxyHost)).isNone then return ()
  let challenge : AuthenticationChallenge := {
    serverType := serverTypeOf platform true d.request.url
    scheme := proxyAuthenticationScheme auth
    proposedCredential := (d.webChallenge.map (·.proposedCredential)).getD {}
    failureResponse := d.response }
  write job fun d => { d with webChallenge := some challenge }
  if info.authProblem then
    if ← read (·.hasProxyUserPass) then
      update fun m => m.doAuthChallenge job
    else
      notifyClient platform job (.didReceiveAuthenticationChallenge challenge)

def fieldText (response : ResourceResponse) (name : String) : Text :=
  (response.httpHeaderField platform (text name)).getD []

def handleLocalReceiveResponse : Procedure Unit := do
  let info ← getinfo job
  write job fun d => { d with response := { d.response with url := info.effectiveURL } }
  write job fun d =>
    if d.response.mimeType = [] then
      let mimeType := platform.lower (extractMIMETypeFromMediaType
        (fieldText platform d.response "Content-Type"))
      { d with response := { d.response with
          mimeType :=
            if mimeType = [] then guessMIMETypeByURL platform d.response.url info.responseCode
            else mimeType } }
    else d
  notifyClient platform job (.didReceiveResponse (← internal job).response)
  if (← internal job).cancelled then return ()
  write job fun d => { d with response := { d.response with responseFired := true } }

/-- The end of `writeCallback`. -/
def deliverData (data : List Byte) : Procedure Nat := do
  let totalSize := data.length
  notifyClient platform job (.willReceiveData totalSize)
  if (← internal job).cancelled then return 0
  notifyClient platform job (.didReceiveData data)
  if (← internal job).cancelled then return 0
  return totalSize

/-- The bytes of a body. The result is what curl is told was taken. -/
def writeCallback (data : List Byte) : Procedure Nat := do
  let totalSize := data.length
  let d ← internal job
  if d.doAuthChallenge then return totalSize
  if d.cancelled then return 0
  let httpCode := (← getinfo job).responseCode
  if 100 ≤ httpCode ∧ httpCode < 200 then return 0
  if (300 ≤ httpCode ∧ httpCode < 400) ∧ fieldText platform d.response "location" ≠ [] then
    return totalSize
  if !d.response.responseFired then
    handleLocalReceiveResponse platform job
    if (← internal job).doAuthChallenge then return totalSize
    if (← internal job).cancelled then return 0
  deliverData platform job data

/-- Which fields of a challenge are kept, by the methods curl has left. -/
def needToSet (avail : Nat) (value : Text) : Bool :=
  let starts (method : String) := (text method).isPrefixOf (platform.lower value)
  if avail = 0 then true
  else if avail &&& curlAuthDigest ≠ 0 then starts "digest"
  else if avail &&& curlAuthNTLM ≠ 0 then starts "ntlm"
  else if avail &&& curlAuthBasic ≠ 0 then starts "basic"
  else true

/-- The status text, which the first two digits of the code are looked up for. -/
def statusText (httpcode : Nat) (header : Text) : Option Text :=
  let digits := ResourceHandleManager.number httpcode
  (find (digits.take 2) header).map fun pos =>
    stripWhiteSpace (header.drop (pos + digits.length))

/-- A line of a header block other than the blank one. -/
def headerLine (info : Info) (header : Text) (response : ResourceResponse) : ResourceResponse :=
  match find [58] header with
  | some splitPos =>
    let name := header.take splitPos
    let value := stripWhiteSpace (header.drop (splitPos + 1))
    let avail :=
      if equalIgnoringCase name (text "WWW-Authenticate") then info.httpAuthAvail
      else if equalIgnoringCase name (text "Proxy-Authenticate") then info.proxyAuthAvail
      else 0
    if needToSet platform avail value then response.setHTTPHeaderField platform name (some value)
    else response
  | none =>
    if (findIgnoringCase (text "HTTP/") header).isSome then
      match statusText info.responseCode header with
      | some httpStatusText => { response with httpStatusText }
      | none => response
    else response

/-- The code the blank line of a block is handled with, or nothing for a block that ends here. -/
def blockCode (isSSL : Bool) (info : Info) : Option Nat :=
  if info.responseCode = 0 ∧ isSSL then
    if info.connectCode = 200 then none
    else if info.connectCode = 407 then some 407
    else if 300 ≤ info.connectCode ∧ info.connectCode < 400 then some 0
    else if info.connectCode = 100 then none
    else some info.connectCode
  -- 100 continue
  else if info.responseCode = 100 then none
  else some info.responseCode

/-- What is derived from the fields at the end of a block. -/
def deriveResponse (info : Info) (httpCode : Nat) (response : ResourceResponse) :
    ResourceResponse :=
  let contentType := fieldText platform response "Content-Type"
  let mimeType := platform.lower (extractMIMETypeFromMediaType contentType)
  { response with
    expectedContentLength := info.contentLength
    mimeType := if mimeType = [] then guessMIMETypeByURL platform response.url httpCode else mimeType
    textEncodingName := extractCharsetFromMediaType contentType
    suggestedFilename :=
      filenameFromHTTPContentDisposition (fieldText platform response "Content-Disposition") }

/-- The request a redirect leads to, with the method curl will use for it. -/
def redirectedRequest (request : ResourceRequest) (newURL : Text) (httpCode : Nat) :
    ResourceRequest :=
  let is (method : String) := equalIgnoringCase request.httpMethod (text method)
  { url := newURL
    httpMethod :=
      if httpCode = 301 ∨ httpCode = 302 then
        if is "POST" || is "PUT" then text "GET" else request.httpMethod
      else if httpCode = 303 then
        if !is "GET" then text "GET" else request.httpMethod
      else request.httpMethod }

/-- The fields of a redirect that do not apply to where it leads. -/
def clearRedirect (response : ResourceResponse) : ResourceResponse :=
  let response := response.setHTTPHeaderField platform (text "location") none
  if fieldText platform response "x-frame-options" ≠ [] then
    response.setHTTPHeaderField platform (text "x-frame-options") none
  else response

/-- A redirect the client is told of and curl follows. -/
def followRedirect (location : Text) (httpCode totalSize : Nat) : Procedure Nat := do
  let d ← internal job
  let newURL := platform.resolve d.request.url location
  notifyClient platform job
    (.willSendRequest (redirectedRequest d.request newURL httpCode) d.response)
  if (← internal job).cancelled then return 0
  write job fun d => { d with
    response := clearRedirect platform d.response
    request := { d.request with url := newURL }
    url := newURL
    isSSL := d.isSSL || equalIgnoringCase (platform.protocol newURL) (text "https") }
  return totalSize

/-- The challenge that the server or the proxy has answered with. -/
def receiveChallenge (httpCode : Nat) : Procedure Unit := do
  if httpCode = 401 ∧ (← internal job).response.isHTTP platform then
    didReceiveAuthenticationChallenge platform job
  if httpCode = 407 ∧ (← internal job).response.isHTTP platform then
    didReceiveProxyAuthChallenge platform job

/-- The end of `headerCallback`, which announces a redirect or the response. -/
def announce (httpCode totalSize : Nat) : Procedure Nat := do
  if (← internal job).cancelled then return 0
  if (← internal job).doAuthChallenge then return totalSize
  let location := fieldText platform (← internal job).response "location"
  if (300 ≤ httpCode ∧ httpCode < 400) ∧ location ≠ [] then
    followRedirect platform job location httpCode totalSize
  else
    notifyClient platform job (.didReceiveResponse (← internal job).response)
    if (← internal job).cancelled then return 0
    write job fun d => { d with response := { d.response with responseFired := true } }
    return totalSize

/-- The blank line that ends a header block. -/
def endOfBlock (totalSize : Nat) : Procedure Nat := do
  let info ← getinfo job
  write job fun d => { d with response := { d.response with
    url := info.effectiveURL
    httpStatusCode := info.responseCode } }
  match blockCode (← internal job).isSSL info with
  | none => return totalSize
  | some httpCode =>
    write job fun d => { d with response := deriveResponse platform info httpCode d.response }
    receiveChallenge platform job httpCode
    announce platform job httpCode totalSize

def isBlank (line : List Byte) : Bool :=
  decide (line = [13, 10]) || decide (line = [10])

/-- A line of a header, the blank one included. The result is what curl is told was taken. -/
def headerCallback (line : List Byte) : Procedure Nat := do
  if (← internal job).cancelled then return 0
  let totalSize := line.length
  notifyClient platform job (.willReceiveData totalSize)
  if (← internal job).cancelled then return 0
  if isBlank line then
    endOfBlock platform job totalSize
  else
    let info ← getinfo job
    write job fun d => { d with response := headerLine platform info (widen line) d.response }
    return totalSize

end

end WkcBrowser.Network
