import WkcBrowser.Url.Components

/-! WebCore's `SecurityOrigin`: who an origin is made from, and the two texts it is written as. -/

namespace WkcBrowser.Url

open Wtf

structure SecurityOrigin where
  protocol : Text
  host : Text
  port : Nat
  /-- Of the sandbox flags, `SandboxOrigin`. -/
  sandboxed : Bool := false
  noAccess : Bool := false

variable (characters : Characters)

def schemeRequiresAuthority (scheme : Text) : Bool :=
  scheme ∈ [literal "http", literal "https", literal "ftp"]

/-- Without schemes that the application registers. -/
def shouldTreatURLSchemeAsLocal (scheme : Text) : Bool := scheme = literal "file"

/-- Without schemes that the application registers. -/
def shouldTreatURLSchemeAsNoAccess (scheme : Text) : Bool := scheme = literal "data"

namespace SecurityOrigin

/-- The constructor for a URL. -/
def ofURL (url : KURL) : SecurityOrigin :=
  let protocol := lower characters url.protocol
  let host := lower characters (url.host characters)
  let protocol :=
    if protocol = literal "about" ∨ protocol = literal "javascript" then [] else protocol
  let port := url.port
  { protocol, host
    port := if isDefaultPortForProtocol port protocol then 0 else port
    noAccess := schemeRequiresAuthority protocol && host.isEmpty ||
      shouldTreatURLSchemeAsNoAccess protocol ||
      shouldTreatURLSchemeAsLocal protocol &&
        (!url.hasPath || (url.path characters).getLast? = some 0x2f) }

def create (url : KURL) : SecurityOrigin :=
  if !url.isValid then ofURL characters .empty else ofURL characters url

def toString (origin : SecurityOrigin) : Text :=
  if origin.protocol.isEmpty then literal "null"
  else if origin.noAccess || origin.sandboxed then literal "null"
  else if origin.protocol = literal "file" then literal "file://"
  else
    origin.protocol ++ literal "://" ++ origin.host ++
      if origin.port ≠ 0 then literal ":" ++ number origin.port else []

def createFromString (originString : Text) : SecurityOrigin :=
  create characters (KURL.create characters originString)

def separatorCharacter : UChar := 0x5f

def createFromDatabaseIdentifier (databaseIdentifier : Text) : SecurityOrigin :=
  match databaseIdentifier.findIdx? (· = separatorCharacter) with
  | none => create characters .empty
  | some separator1 =>
    let separator2 := databaseIdentifier.length - 1 -
      (databaseIdentifier.reverse.takeWhile (· ≠ separatorCharacter)).length
    if separator1 = separator2 then create characters .empty
    else
      let portText := databaseIdentifier.drop (separator2 + 1)
      let portOkay := (toInt portText).isSome
      let port := (toInt portText).getD 0
      let portAbsent := separator2 = databaseIdentifier.length - 1
      if !(portOkay || portAbsent) then create characters .empty
      else if port < 0 ∨ port > 65535 then create characters .empty
      else
        let protocol := databaseIdentifier.take separator1
        let host := (databaseIdentifier.drop (separator1 + 1)).take (separator2 - separator1 - 1)
        create characters
          (KURL.create characters (protocol ++ literal "://" ++ host ++ literal ":" ++
            number port.toNat))

def databaseIdentifier (origin : SecurityOrigin) : Text :=
  origin.protocol ++ [separatorCharacter] ++ origin.host ++ [separatorCharacter] ++
    number origin.port

def isSameSchemeHostPort (origin other : SecurityOrigin) : Bool :=
  origin.host = other.host && origin.protocol = other.protocol && origin.port = other.port

end SecurityOrigin

end WkcBrowser.Url
