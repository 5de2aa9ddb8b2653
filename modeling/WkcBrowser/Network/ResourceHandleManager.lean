import WkcBrowser.Network.ResourceHandle

/-! The parts of the network manager that call nobody: the two job lists, `add`, `cancel`, the
answers to challenges, the deletion of cookies and the settings. -/

namespace WkcBrowser.Network

open Wtf

/-- The body of `clearCookies`. -/
def CookieShare.clear (cookies : CookieShare) (idle inUse : Bool) : CookieShare :=
  if cookies.cookiesDeleting then cookies
  else if idle then
    if !inUse then { cookies with cleared := cookies.requested }
    else { cookies with cookiesDeleting := true }
  else { cookies with cookiesDeleting := true }

/-- The deletion that was put off is tried again. -/
def CookieShare.flush (cookies : CookieShare) (idle inUse : Bool) : CookieShare :=
  if cookies.cookiesDeleting then { cookies with cookiesDeleting := false }.clear idle inUse
  else cookies

namespace ResourceHandleManager
variable (platform : Platform) (m : ResourceHandleManager)

def change (job : Nat) (f : ResourceHandle → ResourceHandle) : ResourceHandleManager :=
  { m with jobs := Function.update m.jobs job (f (m.jobs job)) }

/-- A write to the internal part of a handle. -/
def write (job : Nat) (f : ResourceHandleInternal → ResourceHandleInternal) :
    ResourceHandleManager :=
  m.change job fun handle => { handle with d := f handle.d }

def ref (job : Nat) : ResourceHandleManager :=
  m.change job fun handle => { handle with refs := handle.refs + 1 }

def deref (job : Nat) : ResourceHandleManager :=
  m.change job fun handle => { handle with derefs := handle.derefs + 1 }

def enter (entry : Entry) : ResourceHandleManager :=
  { m with history := m.history ++ [entry] }

def startOneShot : ResourceHandleManager :=
  { m with downloadTimer := true }

def appendScheduledJob (job : Nat) : ResourceHandleManager :=
  let m :=
    if (text ".js").isSuffixOf (platform.lastPathComponent (m.jobs job).d.request.url) then
      m.write job fun d => { d with isJSRequestatFirst := true }
    else m
  { m with scheduledJobList := m.scheduledJobList ++ [job] }

def removeScheduledJob (job : Nat) : Option ResourceHandleManager :=
  if job ∈ m.scheduledJobList then
    some ({ m with scheduledJobList := m.scheduledJobList.erase job }.deref job)
  else none

/-- The job is taken to be started. -/
def take (job : Nat) : ResourceHandleManager :=
  { m with
    starting := some job
    starts := m.starts ++ [{
      job
      isJSRequestatFirst := (m.jobs job).d.isJSRequestatFirst
      running := m.runningJobList
      tcpConnections := m.tcpConnections.1
      willChallengeProxyAuth := m.willChallengeProxyAuth
      jsSequential := m.jsSequential }] }

/-- The job that is started next. -/
def shiftScheduledJob : Option (Nat × ResourceHandleManager) :=
  if !m.jsSequential then
    match m.scheduledJobList with
    | [] => none
    | job :: rest => some (job, { m with scheduledJobList := rest })
  else
    match m.scheduledJobList.find? fun job => !(m.jobs job).d.isJSRequestatFirst with
    | none => none
    | some job => some (job, { m with scheduledJobList := m.scheduledJobList.erase job })

def appendRunningJob (job : Nat) : ResourceHandleManager :=
  let m := if (m.jobs job).d.isJSRequestatFirst then { m with jsSequential := true } else m
  { m with runningJobList := m.runningJobList ++ [job] }

def removeRunningJob (job : Nat) : ResourceHandleManager :=
  if job ∈ m.runningJobList then
    let m := { m with
      runningJobList := m.runningJobList.erase job
      willChallengeProxyAuth := false }
    if (m.jobs job).d.isJSRequestatFirst then { m with jsSequential := false } else m
  else m

/-- A transfer that is taken out of curl takes its message with it. -/
def curlMultiRemoveHandle (job : Nat) : ResourceHandleManager :=
  { m with
    multi := m.multi.erase job
    messages := m.messages.filter fun message => message.1 ≠ job }

/-- A transfer that is added to curl starts anew. -/
def curlMultiAddHandle (job : Nat) : ResourceHandleManager :=
  { m with multi := m.multi ++ [job] }.change job fun handle =>
    { handle with transfer := { handle.transfer with
        info := { effectiveURL := handle.d.url }
        block := []
        ended := true
        blocks := handle.transfer.blocks + 1 } }

/-- `ResourceHandle::create` and `ResourceHandleManager::add`. -/
def add (request : ResourceRequest) : ResourceHandleManager :=
  let job := m.created
  let m := { m with
    created := m.created + 1
    jobs := Function.update m.jobs job { d := { request } } }
  let m := (m.ref job).appendScheduledJob platform job
  if !m.downloadTimer then m.startOneShot else m

def cancel (job : Nat) : ResourceHandleManager :=
  match m.removeScheduledJob job with
  | some m => m
  | none =>
    let m := m.write job fun d => { d with cancelled := true }
    if !(m.jobs job).d.handle then m
    else if !m.downloadTimer then m.startOneShot
    else m

def doAuthChallenge (job : Nat) : ResourceHandleManager :=
  if (m.jobs job).d.webChallenge.isNone then m
  else m.write job fun d => { d with doAuthChallenge := true }

def cancelAuthChallenge (job : Nat) : ResourceHandleManager :=
  m.write job fun d => { d with doAuthChallenge := false }

def receivedCredential (job : Nat) (challenge : AuthenticationChallenge) (credential : Credential) :
    ResourceHandleManager :=
  if (m.jobs job).d.webChallenge ≠ some challenge then m
  else
    (m.write job fun d =>
      { d with webChallenge := some { challenge with proposedCredential := credential } }
      ).doAuthChallenge job

def receivedRequestToContinueWithoutCredential (job : Nat) (challenge : AuthenticationChallenge) :
    ResourceHandleManager :=
  if (m.jobs job).d.webChallenge ≠ some challenge then m else m.cancelAuthChallenge job

def hasProxyUserPass : Bool :=
  decide (m.proxyUser.length ≠ 0) || decide (m.proxyPass.length ≠ 0)

/-- The user name as basic authentication can carry it. -/
def proxyUserName (auth : Nat) (username : Text) : Text :=
  if auth = curlAuthBasic ∧ find [58] username = none then username else []

def setProxyUserPass (username password : Text) : ResourceHandleManager :=
  { m with
    proxyUser := proxyUserName m.proxyAuth username
    proxyPass := password
    willChallengeProxyAuth := true }

def receivedProxyCredential (job : Nat) (credential : Credential) : ResourceHandleManager :=
  (m.doAuthChallenge job).setProxyUserPass credential.user credential.password

/-- curl refuses to unshare the cookies while a transfer holds the share. -/
def shareInUse : Bool :=
  decide (0 < m.cookies.leaked) || (List.range m.created).any fun job => (m.jobs job).d.handle

/-- No transfer runs. -/
def isIdle : Bool :=
  decide (m.runningJobList.length = 0)

def clearCookies : ResourceHandleManager :=
  { m with cookies := m.cookies.clear m.isIdle m.shareInUse }

/-- A call of `clearCookies` from outside. -/
def requestClearCookies : ResourceHandleManager :=
  { m with cookies := { m.cookies with requested := m.cookies.requested + 1 } }.clearCookies

/-- `if (m_cookiesDeleting) { m_cookiesDeleting = false; clearCookies(); }`. -/
def flushCookies : ResourceHandleManager :=
  { m with cookies := m.cookies.flush m.isIdle m.shareInUse }

/-- `m_handle` of the job is forgotten and not cleaned up. -/
def leak (job : Nat) : ResourceHandleManager :=
  { m with cookies := { m.cookies with
      leaked := m.cookies.leaked + if (m.jobs job).d.handle then 1 else 0 } }

/-- From the last job to the first. -/
def removeAllScheduledJobs : ResourceHandleManager :=
  m.scheduledJobList.reverse.foldl deref { m with scheduledJobList := [] }

def removeAllRunningJobs : ResourceHandleManager :=
  m.runningJobList.foldl
    (fun m job =>
      (if (m.jobs job).d.handle then
        (m.curlMultiRemoveHandle job).write job fun d => { d with handle := false }
      else m).deref job)
    { m with runningJobList := [] }

/-- The digits of a number as `String::number` gives them. -/
def number (n : Nat) : Text :=
  (Nat.toDigits 10 n).map fun c => UInt16.ofNat c.toNat

def setProxyInfo (host : Text) (port : Nat) (username password : Text) (auth : Nat) :
    ResourceHandleManager :=
  let m := { m with
    proxyHost := some host
    proxyPort := if port ≠ 0 then port else 80
    proxyAuth := auth
    proxyUser := proxyUserName auth username
    proxyPass := password }
  let m := { m.removeAllScheduledJobs.removeAllRunningJobs with jsSequential := false }
  -- the multi handle is replaced
  let m := { m with multi := [], messages := [] }
  if host.length = 0 then
    { m with proxy := [], proxyUser := [], proxyPass := [], willChallengeProxyAuth := false }
  else
    { m with
      proxy := text "http://" ++ host ++ text ":" ++ number m.proxyPort
      willChallengeProxyAuth := true }

def maxTCPConnections : Nat := 8

def setMaxTCPConnections (number : Nat) : ResourceHandleManager :=
  if valid : 0 < number ∧ number < maxTCPConnections then
    { m with tcpConnections := ⟨number, valid.1⟩ }
  else m

/-- A running job that was cancelled. -/
def cancelledJob : Option Nat :=
  m.runningJobList.find? fun job => (m.jobs job).d.cancelled

def removeCancelledJob (job : Nat) : ResourceHandleManager :=
  let m := { m with runningJobList := m.runningJobList.erase job }
  let m := if (m.jobs job).d.isJSRequestatFirst then { m with jsSequential := false } else m
  ((m.curlMultiRemoveHandle job).write job fun d => { d with handle := false }).deref job

/-- The list is searched from its start again after each job that is removed. -/
def cancelJobs : Nat → ResourceHandleManager → ResourceHandleManager
  | 0, m => m
  | jobs + 1, m =>
    match m.cancelledJob with
    | none => m
    | some job => cancelJobs jobs (m.removeCancelledJob job)

def cancelScheduledJobs : ResourceHandleManager :=
  (cancelJobs m.runningJobList.length m).flushCookies

end ResourceHandleManager

end WkcBrowser.Network
