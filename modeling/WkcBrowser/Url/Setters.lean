import WkcBrowser.Url.Components

/-! The components that are read from a `KURL`, and the setters that parse the URL again with another
component in it. -/

namespace WkcBrowser.Url

open Wtf

namespace KURL

section
variable (characters : Characters) (url : KURL)

def user : Text :=
  decodeURLEscapeSequences characters (url.substring url.userStart (url.userEnd - url.userStart))

/-- A null password is an empty one. -/
def pass : Text :=
  if url.passwordEnd = url.userEnd then []
  else
    decodeURLEscapeSequences characters
      (url.substring (url.userEnd + 1) (url.passwordEnd - url.userEnd - 1))

def query : Option Text :=
  if url.queryEnd = url.pathEnd then none
  else some (url.substring (url.pathEnd + 1) (url.queryEnd - (url.pathEnd + 1)))

def fragmentIdentifier : Option Text :=
  if url.fragmentEnd = url.queryEnd then none
  else some (url.substring (url.queryEnd + 1) (url.fragmentEnd - (url.queryEnd + 1)))

end

/-- `parse(const String&)`. The text is kept when nothing in it changes. -/
def parseString (string : Text) : KURL :=
  let url := parse (cString (narrow string))
  if !url.isValid || narrow string = narrow url.string then { url with string } else url

section
variable (url : KURL)

def left (n : Nat) : Text := url.string.take n

def substringFrom (n : Nat) : Text := url.string.drop n

/-- A character of the text, null behind its end. -/
def charAt (n : Nat) : UChar := url.string.getD n 0

def setHost (s : Text) : KURL :=
  if !url.isValid then url
  else
    let slashSlashNeeded : Bool := url.userStart = url.schemeEnd + 1
    parseString (url.left url.hostStart ++ (if slashSlashNeeded then [0x2f, 0x2f] else []) ++ s ++
      url.substringFrom url.hostEnd)

def removePort : KURL :=
  if url.hostEnd = url.portEnd then url
  else parseString (url.left url.hostEnd ++ url.substringFrom url.portEnd)

/-- The port is an `unsigned short`. -/
def setPort (i : UInt16) : KURL :=
  if !url.isValid then url
  else
    let colonNeeded : Bool := url.portEnd = url.hostEnd
    let portStart := if colonNeeded then url.hostEnd else url.hostEnd + 1
    parseString (url.left portStart ++ (if colonNeeded then [0x3a] else []) ++ number i.toNat ++
      url.substringFrom url.portEnd)

def setHostAndPort (hostAndPort : Text) : KURL :=
  if !url.isValid then url
  else
    let slashSlashNeeded : Bool := url.userStart = url.schemeEnd + 1
    parseString (url.left url.hostStart ++ (if slashSlashNeeded then [0x2f, 0x2f] else []) ++
      hostAndPort ++ url.substringFrom url.portEnd)

def setUser (user : Text) : KURL :=
  if !url.isValid then url
  else if user ≠ [] then
    let u := if url.userStart = url.schemeEnd + 1 then 0x2f :: 0x2f :: user else user
    -- Add '@' if we didn't have one before.
    let u :=
      if url.userEnd = url.hostEnd || url.userEnd = url.passwordEnd && url.charAt url.userEnd ≠ 0x40 then
        u ++ [0x40]
      else u
    parseString (url.left url.userStart ++ u ++ url.substringFrom url.userEnd)
  else
    -- Remove '@' if we now have neither user nor password.
    let last :=
      if url.userEnd = url.passwordEnd && url.userEnd ≠ url.hostEnd && url.charAt url.userEnd = 0x40 then
        url.userEnd + 1
      else url.userEnd
    parseString (url.left url.userStart ++ url.substringFrom last)

def setPass (password : Text) : KURL :=
  if !url.isValid then url
  else if password ≠ [] then
    let p := 0x3a :: (password ++ [0x40])
    let p := if url.userEnd = url.schemeEnd + 1 then 0x2f :: 0x2f :: p else p
    -- Eat the existing '@' since we are going to add our own.
    let last :=
      if url.passwordEnd ≠ url.hostEnd && url.charAt url.passwordEnd = 0x40 then url.passwordEnd + 1
      else url.passwordEnd
    parseString (url.left url.userEnd ++ p ++ url.substringFrom last)
  else
    -- Remove '@' if we now have neither user nor password.
    let last :=
      if url.userStart = url.userEnd && url.passwordEnd ≠ url.hostEnd &&
          url.charAt url.passwordEnd = 0x40 then
        url.passwordEnd + 1
      else url.passwordEnd
    parseString (url.left url.userEnd ++ url.substringFrom last)

def setFragmentIdentifier (s : Text) : KURL :=
  if !url.isValid then url else parseString (url.left url.queryEnd ++ [0x23] ++ s)

def removeFragmentIdentifier : KURL :=
  if !url.isValid then url else parseString (url.left url.queryEnd)

/-- The query may have its mark already. A null text has none. -/
def setQuery (query : Option Text) : KURL :=
  if !url.isValid then url
  else
    let text :=
      match query with
      | none => []
      | some query => if query.head? ≠ some 0x3f then 0x3f :: query else query
    parseString (url.left url.pathEnd ++ text ++ url.substringFrom url.queryEnd)

end

end KURL

/-- What is read from a URL. -/
structure Components where
  protocol : Text
  user : Text
  pass : Text
  host : Text
  port : Nat
  path : Text
  query : Option Text
  fragment : Option Text
deriving DecidableEq

def KURL.components (characters : Characters) (url : KURL) : Components where
  protocol := url.protocol
  user := url.user characters
  pass := url.pass characters
  host := url.host characters
  port := url.port
  path := url.path characters
  query := url.query
  fragment := url.fragmentIdentifier

end WkcBrowser.Url
