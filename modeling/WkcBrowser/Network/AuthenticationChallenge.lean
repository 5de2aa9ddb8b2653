import WkcBrowser.Lib.Splitting
import WkcBrowser.Network.ResourceHandle

/-! `ResourceHandle::didReceiveAuthenticationChallenge`: the protection space that is made of a response
that asks for authentication. -/

namespace WkcBrowser.Network

open Wtf Splitting

inductive ProtectionSpaceAuthenticationScheme where
  | default
  | httpBasic
  | httpDigest
  | ntlm
deriving DecidableEq

structure ProtectionSpace where
  host : Text
  port : Nat
  serverType : ProtectionSpaceServerType
  realm : Text
  authenticationScheme : ProtectionSpaceAuthenticationScheme
deriving DecidableEq

/-- The URL of a request; a port that is not given is 0. -/
structure RequestUrl where
  protocol : Text
  host : Text
  port : UInt16

/-- The bits of `CURLINFO_HTTPAUTH_AVAIL` that are looked at. -/
structure HttpAuthAvail where
  basic : Bool
  digest : Bool
  ntlm : Bool
  any : Bool

/-- What is read of a handle. The answers of curl are missing when it fails. -/
structure ChallengedHandle where
  httpHeaderField : Text → Option Text
  url : RequestUrl
  httpAuthProblem : Option Int
  httpAuthAvail : Option HttpAuthAvail
  hasClient : Bool

def comma : UChar := 0x2C

def equals : UChar := 0x3D

def quote : UChar := 0x22

def unquote (value : Text) : Text :=
  let value := if value.head? = some quote then value.drop 1 else value
  if value.getLast? = some quote then value.dropLast else value

/-- The type and the value of an item of the list. -/
def readItem (item : Text) : Option (Text × Text) :=
  match split equals item with
  | first :: second :: more =>
    some ((stripWhiteSpace first).map toASCIILower,
      unquote (stripWhiteSpace (second ++ more.flatMap (equals :: ·))))
  | _ => none

/-- The loop over the list, with the realm so far. -/
def readRealm (realm : Text) (list : List Text) : Text :=
  list.foldl (fun realm item =>
    match readItem item with
    | some (type, value) => if type = text "realm" then value else realm
    | none => realm) realm

def parameterList (header : Text) : List Text :=
  let header := stripWhiteSpace header
  if (text "digest").isPrefixOf (header.map toASCIILower) then split comma (header.drop 6)
  else if (text "basic").isPrefixOf (header.map toASCIILower) then [stripWhiteSpace (header.drop 5)]
  else []

/-- The challenge that the handle keeps. -/
def webChallenge (d : ChallengedHandle) : Option ProtectionSpace := do
  let header ← d.httpHeaderField (text "WWW-Authenticate")
  let serverType := if d.url.protocol = text "http" then ProtectionSpaceServerType.http else .https
  let _ ← d.httpAuthProblem
  let avail ← d.httpAuthAvail
  let host := (d.httpHeaderField (text "Host")).getD d.url.host
  let port := if 0 < d.url.port then d.url.port.toNat else 80
  let realm := readRealm [] (parameterList header)
  let scheme : ProtectionSpaceAuthenticationScheme :=
    if avail.digest then .httpDigest
    else if avail.ntlm then .ntlm
    else if avail.basic || avail.any then .httpBasic
    else .default
  some ⟨host, port, serverType, realm, scheme⟩

/-- The challenge that the client receives. -/
def ChallengedHandle.didReceiveAuthenticationChallenge (d : ChallengedHandle) : Option ProtectionSpace := do
  let space ← webChallenge d
  let authproblem ← d.httpAuthProblem
  if authproblem ≠ 0 ∧ d.hasClient then some space else none

end WkcBrowser.Network
