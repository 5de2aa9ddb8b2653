import WkcBrowser.Network.ResourceResponse

/-! The tables of `ResourceHandleManagerSSL` and the options it sets on a handle. A handle keeps
every option until it is set again. -/

namespace WkcBrowser.Network

open Wtf

/-- A certificate at its address. The names are written by `X509_NAME_oneline`, in ASCII. -/
structure ClientCertificate where
  address : Nat
  issuer : Text
  subject : Text
  deriving DecidableEq

/-- The host names of the tables are lower case and carry a port. `certfIsRegist` and `crlIsRegist`
are what the platform answers for its certificate and revocation files. -/
structure ResourceHandleManagerSSL where
  sslVersions : List (Text × Int) := []
  allowServerCA : List (Text × List Byte) := []
  allowServerHost : List Text := []
  clientCerts : List ClientCertificate := []
  clientCertCache : List (Text × Nat) := []
  certfIsRegist : Bool := false
  crlIsRegist : Bool := false

/-- The parts of a URL that a handle is configured by. -/
structure ServerURL where
  protocol : Text
  host : Text
  port : Option Nat

/-- The files of the platform. -/
inductive PlatformFile where
  | certFile
  | crlFile
  | randFile
  deriving DecidableEq

/-- The options of a handle that concern TLS, as `curl_easy_init` leaves them. -/
structure TLSOptions where
  caData : Option (List Byte) := none
  caInfo : Option PlatformFile := none
  crlFile : Option PlatformFile := none
  randomFile : Option PlatformFile := none
  sslCtxFunction : Bool := false
  sslStateFunction : Bool := false
  sslVersion : Int := 0
  certInfo : Bool := false
  verifyHost : Nat := 2
  verifyPeer : Nat := 1
  deriving DecidableEq

section
variable (platform : Platform)

/-- The digits of `String::number`. -/
def portText (port : Nat) : Text := text (toString port)

def SSLhostAndPort (kurl : ServerURL) : Text :=
  match kurl.port with
  | some port => platform.lower kurl.host ++ text ":" ++ portText port
  | none => kurl.host ++ text ":443"

namespace ResourceHandleManagerSSL

/-- A host is entered in a table with the port that it names or the port of TLS. -/
def tableHost (hostWithPort : Text) : Text :=
  platform.lower (if 0x3a ∈ hostWithPort then hostWithPort else hostWithPort ++ text ":443")

/-- `HashMap::add` keeps an entry that is there. -/
def setAllowServerCA (m : ResourceHandleManagerSSL) (hostWithPort : Text) (ca : List Byte) :
    ResourceHandleManagerSSL :=
  let host := tableHost platform hostWithPort
  if m.allowServerCA.any (·.1 = host) then m
  else { m with allowServerCA := (host, ca) :: m.allowServerCA }

def removeAllowServerCA (m : ResourceHandleManagerSSL) (hostWithPort : Text) :
    ResourceHandleManagerSSL :=
  let host := tableHost platform hostWithPort
  { m with allowServerCA := m.allowServerCA.filter (·.1 ≠ host) }

def setAllowServerHost (m : ResourceHandleManagerSSL) (hostWithPort : Text) :
    ResourceHandleManagerSSL :=
  { m with allowServerHost := tableHost platform hostWithPort :: m.allowServerHost }

def allowsServerCA (m : ResourceHandleManagerSSL) (host : Text) : Option (List Byte) :=
  (m.allowServerCA.find? (·.1 = platform.lower host)).map Prod.snd

def allowsServerHost (m : ResourceHandleManagerSSL) (host : Text) : Bool :=
  platform.lower host ∈ m.allowServerHost

/-- A host that is missing in the table reads as zero, the default version. -/
def sslVersion (m : ResourceHandleManagerSSL) (kurl : ServerURL) : Int :=
  ((m.sslVersions.find? (·.1 = SSLhostAndPort platform kurl)).map Prod.snd).getD 0

def setSSLVersion (m : ResourceHandleManagerSSL) (kurl : ServerURL) (version : Int) :
    ResourceHandleManagerSSL :=
  let host := SSLhostAndPort platform kurl
  { m with sslVersions := (host, version) :: m.sslVersions.filter (·.1 ≠ host) }

/-- The first options of `initializeHandleSSL`: the authority of the host or the certificate file. -/
def setAuthority (m : ResourceHandleManagerSSL) (kurl : ServerURL) (handle : TLSOptions) :
    TLSOptions :=
  match m.allowsServerCA platform (SSLhostAndPort platform kurl) with
  | some ca => { handle with caData := some ca }
  | none => if m.certfIsRegist then { handle with caInfo := some .certFile } else handle

/-- The last options of `initializeHandleSSL`. -/
def setVerification (m : ResourceHandleManagerSSL) (kurl : ServerURL) (handle : TLSOptions) :
    TLSOptions :=
  if m.allowsServerHost platform (SSLhostAndPort platform kurl) then
    { handle with verifyHost := 0, verifyPeer := 0 }
  else { handle with verifyHost := 2, verifyPeer := 1 }

/-- The options that `initializeHandleSSL` sets. -/
def initializeHandleSSL (m : ResourceHandleManagerSSL) (kurl : ServerURL) (handle : TLSOptions) :
    TLSOptions :=
  let handle := m.setAuthority platform kurl handle
  m.setVerification platform kurl { handle with
    crlFile := if m.crlIsRegist then some .crlFile else handle.crlFile
    randomFile := some .randFile
    sslCtxFunction := true
    sslStateFunction := true
    sslVersion := m.sslVersion platform kurl
    certInfo := true }

/-- `removeRunningJobSSL`, which blocks the callbacks. -/
def removeRunningJobSSL (handle : TLSOptions) : TLSOptions :=
  { handle with sslCtxFunction := false, sslStateFunction := false }

variable {platform} (m : ResourceHandleManagerSSL) (kurl : ServerURL) (handle : TLSOptions)

theorem setVerification_caData :
    (m.setVerification platform kurl handle).caData = handle.caData := by
  unfold setVerification
  split <;> rfl

theorem setVerification_caInfo :
    (m.setVerification platform kurl handle).caInfo = handle.caInfo := by
  unfold setVerification
  split <;> rfl

theorem initializeHandleSSL_caData :
    (m.initializeHandleSSL platform kurl handle).caData =
      (m.allowsServerCA platform (SSLhostAndPort platform kurl)).or handle.caData := by
  simp only [initializeHandleSSL, setVerification_caData, setAuthority]
  cases m.allowsServerCA platform (SSLhostAndPort platform kurl) with
  | some ca => rfl
  | none => dsimp only; split <;> rfl

theorem initializeHandleSSL_caInfo :
    (m.initializeHandleSSL platform kurl handle).caInfo =
      if m.allowsServerCA platform (SSLhostAndPort platform kurl) = none ∧ m.certfIsRegist then
        some .certFile
      else handle.caInfo := by
  simp only [initializeHandleSSL, setVerification_caInfo, setAuthority]
  cases m.allowsServerCA platform (SSLhostAndPort platform kurl) with
  | some ca => simp
  | none => simp only [true_and]; split <;> rfl

/-- The checks of peer and host are always set. -/
theorem initializeHandleSSL_verify (other : TLSOptions) :
    (m.initializeHandleSSL platform kurl handle).verifyPeer =
        (m.initializeHandleSSL platform kurl other).verifyPeer ∧
      (m.initializeHandleSSL platform kurl handle).verifyHost =
        (m.initializeHandleSSL platform kurl other).verifyHost := by
  simp only [initializeHandleSSL, setVerification]
  split <;> exact ⟨rfl, rfl⟩

end ResourceHandleManagerSSL

end

end WkcBrowser.Network
