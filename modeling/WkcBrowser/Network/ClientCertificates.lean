import WkcBrowser.Lib.Along
import WkcBrowser.Network.ResourceHandleManagerSSL

/-! The client certificates of `ResourceHandleManagerSSL`. One table holds the registered
certificates. The other holds, for the names of a server, the certificate that was chosen for it.
Both hold pointers to the same objects. -/

namespace WkcBrowser.Network

open Wtf Lib

/-- The organizations named by a server's certificate, where there are any. They hold no NUL and
fit in `gBuff`. -/
structure ServerCertificate where
  subject : Option (List Byte)
  issuer : Option (List Byte)

inductive SSLVersion where
  | ssl2
  | ssl3
  | tls1
  | dtls1
  | other
  deriving DecidableEq

/-- What a handshake tells `ClientCertSelectCallback`, and the index that the client answers when it
is asked to choose. `issuers` are the names of the request, in the order they are popped. -/
structure Handshake where
  cancelled : Bool := false
  verified : Bool := true
  version : SSLVersion := .tls1
  certificateRequest : Bool := true
  server : Option ServerCertificate
  issuers : List Text
  choice : Int

/-- The key of a server. `X509_NAME_get_text_by_NID` answers -1 for a name without organization, so
that what comes next is written one place too early: the issuer over the blank before it. -/
def requester : Option ServerCertificate → Text
  | none => []
  | some server => widen <|
    match server.subject, server.issuer with
    | none, none => ascii "Subject: \r\nIssuer: "
    | none, some issuer => ascii "Subject: \r\nIssuer:" ++ issuer
    | some subject, issuer => ascii "Subject: " ++ subject ++ ascii "\r\nIssuer: " ++ issuer.getD []

/-- The loop of `organizationName` over the entries of a name. -/
def organizationEntry : List Text → Text
  | [] => []
  | entry :: entries =>
    match splitText 0x3d entry with
    | [] => []
    | kind :: values =>
      if kind = text "O" then (values.intersperse [0x3d]).flatten
      else organizationEntry entries

def organizationName (name : Text) : Text := organizationEntry (splitText 0x2f name)

/-- The key that `deleteClientCertCache` builds, from the certificate's issuer and subject. -/
def ClientCertificate.requester (cert : ClientCertificate) : Text :=
  text "Subject: " ++ organizationName cert.issuer ++
    text "\r\nIssuer: " ++ organizationName cert.subject

namespace ResourceHandleManagerSSL

def getClientCertCache (m : ResourceHandleManagerSSL) (requester : Text) : Option Nat :=
  (m.clientCertCache.find? (fun entry => entry.1 = requester)).map Prod.snd

def setClientCertCache (m : ResourceHandleManagerSSL) (requester : Text) (cert : Nat) :
    ResourceHandleManagerSSL :=
  { m with clientCertCache :=
      (requester, cert) :: m.clientCertCache.filter (fun entry => entry.1 ≠ requester) }

def deleteClientCertCache (m : ResourceHandleManagerSSL) (cert : ClientCertificate) :
    ResourceHandleManagerSSL :=
  { m with clientCertCache :=
      m.clientCertCache.filter (fun entry => entry.1 ≠ cert.requester) }

/-- The certificate is created at an address. -/
def SSLRegisterClientCert (m : ResourceHandleManagerSSL) (cert : ClientCertificate) :
    ResourceHandleManagerSSL :=
  { m with clientCerts := cert :: m.clientCerts }

def registered (m : ResourceHandleManagerSSL) (certid : Nat) : Option ClientCertificate :=
  m.clientCerts.find? (fun cert => cert.address = certid)

def SSLUnregisterClientCert (m : ResourceHandleManagerSSL) (certid : Option Nat) :
    Int × ResourceHandleManagerSSL :=
  match certid.bind m.registered with
  | none => (-1, m)
  | some cert =>
    let m := { m with clientCerts := m.clientCerts.filter (fun other => other.address ≠ cert.address) }
    (0, m.deleteClientCertCache cert)

/-- `certInfo`: the registered certificates of the issuers that the server names. -/
def certInfo (m : ResourceHandleManagerSSL) (issuers : List Text) : List ClientCertificate :=
  issuers.flatMap fun issuer => m.clientCerts.filter (fun cert => cert.issuer = issuer)

/-- The certificate that the handshake uses, and the tables after it. -/
def ClientCertSelectCallback (m : ResourceHandleManagerSSL) (ssl : Handshake) :
    Option Nat × ResourceHandleManagerSSL :=
  let asks := ssl.version = .ssl3 ∨ ssl.version = .tls1
  if ssl.cancelled ∨ !ssl.verified ∨ (asks ∧ !ssl.certificateRequest) then (none, m)
  else
    match m.getClientCertCache (requester ssl.server) with
    | some cert => (some cert, m)
    | none =>
      if !asks ∨ ssl.choice < 0 then (none, m)
      else
        match (m.certInfo ssl.issuers)[ssl.choice.toNat]? with
        | none => (none, m)
        | some cert => (some cert.address, m.setClientCertCache (requester ssl.server) cert.address)

end ResourceHandleManagerSSL

open ResourceHandleManagerSSL

inductive CertificateEvent where
  | register (cert : ClientCertificate)
  | unregister (certid : Option Nat)
  | handshake (ssl : Handshake)
  | deleteSharedInstance

namespace ResourceHandleManagerSSL

def handle (m : ResourceHandleManagerSSL) : CertificateEvent → ResourceHandleManagerSSL
  | .register cert => m.SSLRegisterClientCert cert
  | .unregister certid => (m.SSLUnregisterClientCert certid).2
  | .handshake ssl => (m.ClientCertSelectCallback ssl).2
  | .deleteSharedInstance => {}

/-- Every certificate that is cached is registered. -/
def Sound (m : ResourceHandleManagerSSL) : Prop :=
  ∀ entry ∈ m.clientCertCache, (m.registered entry.2).isSome

instance (m : ResourceHandleManagerSSL) : Decidable m.Sound :=
  inferInstanceAs (Decidable (∀ entry ∈ m.clientCertCache, _))

/-- The tables are sound after the event, and the handshake uses a registered certificate. -/
def Safe (m : ResourceHandleManagerSSL) (event : CertificateEvent) : Prop :=
  (m.handle event).Sound ∧
    ∀ ssl, event = .handshake ssl → ∀ cert ∈ (m.ClientCertSelectCallback ssl).1,
      (m.registered cert).isSome

end ResourceHandleManagerSSL

end WkcBrowser.Network
