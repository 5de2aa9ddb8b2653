import Mathlib.Logic.Function.Basic
import WkcBrowser.Lib.Interaction
import WkcBrowser.Network.ResourceResponse

/-! The data of the network manager: the handle of a load with its internal part, what curl keeps
for a transfer, the manager with its two job lists, and the events that reach it from the clients of
the loads and from curl. A `ResourceHandle*` is a number; the handles are numbered as they are
created. -/

namespace WkcBrowser.Network

open Wtf Lib.Interaction

inductive ProtectionSpaceServerType where
  | http
  | https
  | proxyHTTP
  | proxyHTTPS
deriving DecidableEq

inductive AuthenticationScheme where
  | default
  | httpBasic
  | httpDigest
  | ntlm
deriving DecidableEq

structure Credential where
  user : Text := []
  password : Text := []
deriving DecidableEq

structure AuthenticationChallenge where
  serverType : ProtectionSpaceServerType
  scheme : AuthenticationScheme
  proposedCredential : Credential
  failureResponse : ResourceResponse
deriving DecidableEq

structure ResourceRequest where
  url : Text
  httpMethod : Text := text "GET"
deriving DecidableEq

/-- `webChallenge` is missing when the challenge is null and `handle` tells whether `m_handle` is
set. -/
structure ResourceHandleInternal where
  client : Bool := true
  request : ResourceRequest
  handle : Bool := false
  cancelled : Bool := false
  url : Text := []
  response : ResourceResponse := {}
  webChallenge : Option AuthenticationChallenge := none
  doAuthChallenge : Bool := false
  isSSL : Bool := false
  isJSRequestatFirst : Bool := false
deriving DecidableEq

/-- What `curl_easy_getinfo` tells; the authentication methods are bits. -/
structure Info where
  effectiveURL : Text := []
  responseCode : Nat := 0
  connectCode : Nat := 0
  contentLength : Int := -1
  httpAuthAvail : Nat := 0
  proxyAuthAvail : Nat := 0
  authProblem : Bool := false
deriving DecidableEq

def curlAuthBasic : Nat := 1
def curlAuthDigest : Nat := 2
def curlAuthNTLM : Nat := 8

/-- A transfer as curl sees it: the header lines of the response it receives, whether they are
complete, and the number of that response. -/
structure Transfer where
  info : Info := {}
  block : List (List Byte) := []
  ended : Bool := true
  blocks : Nat := 0
deriving DecidableEq

/-- `refs` and `derefs` count the manager's calls of `ref` and `deref`. -/
structure ResourceHandle where
  d : ResourceHandleInternal
  refs : Nat := 0
  derefs : Nat := 0
  transfer : Transfer := {}
deriving DecidableEq

/-- A call of a `ResourceHandleClient`. -/
inductive Notice where
  | willSendRequest (request : ResourceRequest) (redirectResponse : ResourceResponse)
  | didReceiveResponse (response : ResourceResponse)
  | willReceiveData (length : Nat)
  | didReceiveData (data : List Byte)
  | didFinishLoading
  | didFail (errorCode : Nat)
  | cannotShowURL
  | didReceiveAuthenticationChallenge (challenge : AuthenticationChallenge)
deriving DecidableEq

/-- What happened to a job, in the order it happened, for the statements about whole runs: a notice
to its client with the transfer it was sent for, what the client did to the job, and a transfer that
was added to curl once more to answer a challenge. -/
inductive Entry where
  | notice (job : Nat) (notice : Notice) (transfer : Transfer)
  | cancelled (job : Nat)
  | released (job : Nat)
  | repeated (job : Nat) (transfer : Transfer)
deriving DecidableEq

inductive CURLMcode where
  | ok
  | callMultiPerform
  | error (code : Nat)
deriving DecidableEq

/-- The share handle that keeps the cookies. `leaked` counts the transfers that hold it and that
nobody will clean up. `requested` are the calls of `clearCookies` from outside and `cleared` the ones
that are answered, for the statements about whole runs. -/
structure CookieShare where
  cookiesDeleting : Bool := false
  leaked : Nat := 0
  requested : Nat := 0
  cleared : Nat := 0
deriving DecidableEq

/-- A job is about to be started: what `startScheduledJobs` sees then, for the statements about whole
runs. -/
structure Start where
  job : Nat
  isJSRequestatFirst : Bool
  running : List Nat
  tcpConnections : Nat
  willChallengeProxyAuth : Bool
  jsSequential : Bool
deriving DecidableEq

/-- The number of connections before the settings. -/
def defaultConnections : { number : Nat // 0 < number } := ⟨7, by decide⟩

/-- `starting` is the job `startScheduledJobs` holds between the two lists. `multi` are the transfers
added to curl and `messages` the ones it has finished but not reported. -/
structure ResourceHandleManager where
  jobs : Nat → ResourceHandle := fun _ => { d := { request := { url := [] } } }
  created : Nat := 0
  scheduledJobList : List Nat := []
  runningJobList : List Nat := []
  starting : Option Nat := none
  downloadTimer : Bool := false
  tcpConnections : { number : Nat // 0 < number } := defaultConnections
  jsSequential : Bool := false
  willChallengeProxyAuth : Bool := false
  proxy : Text := []
  proxyHost : Option Text := none
  proxyPort : Nat := 0
  proxyUser : Text := []
  proxyPass : Text := []
  proxyAuth : Nat := 0
  multi : List Nat := []
  messages : List (Nat × Nat) := []
  history : List Entry := []
  cookies : CookieShare := {}
  starts : List Start := []

inductive Event where
  | add (request : ResourceRequest)
  | cancel (job : Nat)
  /-- `setClient(0)`, which a loader calls when it lets go of its handle. -/
  | releaseClient (job : Nat)
  | receivedCredential (job : Nat) (challenge : AuthenticationChallenge) (credential : Credential)
  | receivedRequestToContinueWithoutCredential (job : Nat) (challenge : AuthenticationChallenge)
  | receivedProxyCredential (job : Nat) (credential : Credential)
  | clearCookies
  /-- The client returns from the call it is in. -/
  | leave
  | timer
  | setProxyInfo (host : Text) (port : Nat) (username password : Text) (auth : Nat)
  | setMaxTCPConnections (number : Nat)
  | easyInit (found : Bool)
  | multiAdd (ret : CURLMcode)
  | header (job : Nat) (line : List Byte) (info : Info)
  | body (job : Nat) (data : List Byte)
  | finished (job : Nat) (result : Nat)
  /-- `curl_multi_perform` returns and does not want to be called again. -/
  | performed
deriving DecidableEq

abbrev Procedure := Program ResourceHandleManager Event

end WkcBrowser.Network
