import WkcBrowser.Wtf.StringImpl

/-! WebCore's `KURL`: what it parses a URL into and what it reads from it. A C string is the list of the
bytes before its end, and what is read at the end is null. -/

namespace WkcBrowser.Url

open Wtf

/-! The classes of `characterClassTable`. -/

section
variable (c : Byte)

def isASCIIAlpha : Bool := 0x41 ≤ c && c ≤ 0x5a || 0x61 ≤ c && c ≤ 0x7a

def isASCIIDigit : Bool := 0x30 ≤ c && c ≤ 0x39

def isSchemeFirstChar : Bool := isASCIIAlpha c

def isSchemeChar : Bool := isASCIIAlpha c || isASCIIDigit c || c ∈ ascii "+-."

def isUserInfoChar : Bool := isASCIIAlpha c || isASCIIDigit c || c ∈ ascii "!$%&'()*+,-.:;=_~"

def isHostnameChar : Bool := isASCIIAlpha c || isASCIIDigit c || c ∈ ascii "%-._"

def isIPv6Char : Bool :=
  isASCIIDigit c || 0x41 ≤ c && c ≤ 0x46 || 0x61 ≤ c && c ≤ 0x66 || c ∈ ascii "%.:"

def isPathSegmentEndChar : Bool := c = 0 || c ∈ ascii "#/?"

def isBadChar : Bool := 1 ≤ c && c ≤ 0x20 || 0x7f ≤ c || c ∈ ascii "\"#%<>?"

end

/-- The letter, or its capital. -/
def matchLetter (c lowercaseLetter : Byte) : Bool := c ||| 0x20 = lowercaseLetter

/-- The letters of a word, or capitals, at the start of a text. -/
def matchLetters : List Byte → List Byte → Bool
  | [], _ => true
  | letter :: letters, text => matchLetter (text.headD 0) letter && matchLetters letters text.tail

def hexDigits : List Byte := ascii "0123456789ABCDEF"

def appendEscapingBadChars (text : List Byte) : List Byte :=
  text.flatMap fun c =>
    if isBadChar c then
      if c = 0x25 || c = 0x3f then [c]
      else if c ≠ 0x09 && c ≠ 0x0a && c ≠ 0x0d then
        [0x25, hexDigits.getD (c.toNat / 16) 0, hexDigits.getD (c.toNat % 16) 0]
      else []
    else [c]

/-- Slashes are taken off the end while more than one byte is left, the last byte first. -/
def dropSlashes : List Byte → List Byte
  | c :: next :: copied => if c = 0x2f then dropSlashes (next :: copied) else c :: next :: copied
  | copied => copied

/-- What is left of a path when a segment of two dots comes, the last byte first. -/
def rewindSegment (copied : List Byte) : List Byte :=
  (dropSlashes (if 1 < copied.length then copied.tail else copied)).dropWhile (· ≠ 0x2f)

/-- The loop of `copyPathRemovingDots`, with what is copied already, the last byte first, and the number
of bytes to skip. -/
def copySegments : Nat → List Byte → List Byte → List Byte
  | _, copied, [] => copied
  | skip + 1, copied, _ :: rest => copySegments skip copied rest
  | 0, copied, c :: rest =>
    if c = 0x2e && copied.head? = some 0x2f then
      if rest.headD 0x2f = 0x2f then copySegments 1 copied rest
      else if rest.headD 0 = 0x2e && rest.tail.headD 0x2f = 0x2f then
        copySegments 2 (rewindSegment copied) rest
      else copySegments 0 (c :: copied) rest
    else copySegments 0 (c :: copied) rest

/-- The path begins with a slash unless it is empty. -/
def copyPathRemovingDots (path : List Byte) : List Byte :=
  match path with
  | [] => []
  | slash :: rest => (copySegments 0 [slash] rest).reverse

def hasSlashDotOrDotDot : List Byte → Bool
  | previous :: c :: rest =>
    c = 0x2e && (previous = 0x2f || previous = 0x2e) || hasSlashDotOrDotDot (c :: rest)
  | _ => false

/-- The parts between the slashes after the scheme and the path. -/
structure Authority where
  user : List Byte := []
  password : List Byte := []
  host : List Byte := []
  /-- The digits after a colon, if there is one. -/
  port : Option (List Byte) := none

/-- The start of the authority up to the host: the user, the password and the text from the host on. -/
def parseUserInfo (text : List Byte) : Option (List Byte × List Byte × List Byte) :=
  let userInfo := text.takeWhile isUserInfoChar
  let next := text.dropWhile isUserInfoChar
  if next.head? = some 0x40 then
    some (userInfo.takeWhile (· ≠ 0x3a), (userInfo.dropWhile (· ≠ 0x3a)).tail, next.tail)
  else if next.headD 0 = 0x5b || isPathSegmentEndChar (next.headD 0) then some ([], [], text)
  else none

/-- The host and the text after it. -/
def parseHost (text : List Byte) : Option (List Byte × List Byte) :=
  if text.head? = some 0x5b then
    let inside := text.tail.takeWhile isIPv6Char
    let next := text.tail.dropWhile isIPv6Char
    if next.head? = some 0x5d then some (0x5b :: inside ++ [0x5d], next.tail) else none
  else some (text.takeWhile isHostnameChar, text.dropWhile isHostnameChar)

/-- The port and the text after it. -/
def parsePort (text : List Byte) : Option (List Byte) × List Byte :=
  if text.head? = some 0x3a then
    (some (text.tail.takeWhile isASCIIDigit), text.tail.dropWhile isASCIIDigit)
  else (none, text)

/-- What is read after two slashes, and the text from the path on. -/
def parseAuthority (text : List Byte) : Option (Authority × List Byte) :=
  match parseUserInfo text with
  | none => none
  | some (user, password, text) =>
    match parseHost text with
    | none => none
    | some (host, text) =>
      let (port, text) := parsePort text
      if isPathSegmentEndChar (text.headD 0) then some ({ user, password, host, port }, text)
      else none

/-- What `parse` finds before it assembles the canonical text. -/
structure Parts where
  scheme : List Byte
  hierarchical : Bool
  isFile : Bool
  protocolInHTTPFamily : Bool
  authority : Authority := {}
  authorityText : List Byte := []
  path : List Byte
  query : List Byte
  fragment : List Byte

/-- The path, the query with its mark and the fragment with its mark. -/
def splitPath (text : List Byte) : List Byte × List Byte × List Byte :=
  let path := text.takeWhile fun c => c ≠ 0x3f && c ≠ 0x23
  let afterPath := text.dropWhile fun c => c ≠ 0x3f && c ≠ 0x23
  let query := if afterPath.head? = some 0x3f then afterPath.takeWhile (· ≠ 0x23) else []
  (path, query, afterPath.drop query.length)

/-- The authority, its text and the text from the path on. -/
def splitAuthority (emptyAllowed : Bool) (afterColon : List Byte) :
    Option (Authority × List Byte × List Byte) :=
  if afterColon.head? = some 0x2f && afterColon.tail.head? = some 0x2f then
    match parseAuthority (afterColon.drop 2) with
    | none => none
    | some (authority, rest) =>
      let authorityText := (afterColon.drop 2).take ((afterColon.drop 2).length - rest.length)
      -- For most schemes an empty authority means that the slashes are the start of the path.
      if authorityText = [] && !emptyAllowed then some ({}, [], afterColon)
      else some (authority, authorityText, rest)
  else some ({}, [], afterColon)

/-- The first half of `parse`. -/
def splitURL (url : List Byte) : Option Parts :=
  if !isSchemeFirstChar (url.headD 0) then none
  else
    let scheme := url.takeWhile isSchemeChar
    let afterScheme := url.dropWhile isSchemeChar
    if afterScheme.head? ≠ some 0x3a then none
    else
      let isFile := scheme.length = 4 && matchLetters (ascii "file") url
      let protocolInHTTPFamily := matchLetters (ascii "http") url &&
        (url.getD 4 0 = 0x3a || matchLetter (url.getD 4 0) 0x73 && url.getD 5 0 = 0x3a)
      match splitAuthority (protocolInHTTPFamily || isFile) afterScheme.tail with
      | none => none
      | some (authority, authorityText, rest) =>
        let (path, query, fragment) := splitPath rest
        let hierarchical : Bool := afterScheme.tail.head? = some 0x2f
        some { scheme, hierarchical, isFile, protocolInHTTPFamily, authority, authorityText,
               path, query, fragment }

namespace Parts

variable (parts : Parts)

def hostIsLocalHost : Bool :=
  parts.authorityText.length = 9 && matchLetters (ascii "localhost") parts.authorityText

def degenFilePath : Bool :=
  parts.path = [] && (parts.authority.host = [] || parts.hostIsLocalHost)

def haveNonHostAuthorityPart : Bool :=
  parts.authority.user ≠ [] || parts.authority.password ≠ [] || parts.authority.port.getD [] ≠ []

def hasAuthority : Bool :=
  if parts.isFile then !parts.degenFilePath
  else parts.haveNonHostAuthorityPart || parts.authority.host ≠ []

/-! The canonical text up to each of its positions. -/

def userStart : List Byte :=
  parts.scheme ++ [0x3a] ++ if parts.hasAuthority then [0x2f, 0x2f] else []

def userEnd : List Byte :=
  parts.userStart ++ if parts.hasAuthority then parts.authority.user else []

def passwordEnd : List Byte :=
  parts.userEnd ++
    if parts.hasAuthority && parts.authority.password ≠ [] then 0x3a :: parts.authority.password
    else []

def hostStart : List Byte :=
  parts.passwordEnd ++
    if parts.hasAuthority && parts.passwordEnd.length ≠ parts.userStart.length then [0x40] else []

def hostEnd : List Byte :=
  parts.hostStart ++
    if parts.hasAuthority &&
        !(parts.isFile && parts.hostIsLocalHost && !parts.haveNonHostAuthorityPart) then
      parts.authority.host
    else []

def portEnd : List Byte :=
  parts.hostEnd ++
    match parts.authority.port with
    | some port => if parts.hasAuthority then 0x3a :: port else []
    | none => []

def pathEnd (url : List Byte) : List Byte :=
  let slash :=
    if parts.protocolInHTTPFamily && parts.hierarchical && parts.path = [] then [0x2f] else []
  let path :=
    if !parts.hierarchical || !hasSlashDotOrDotDot url then parts.path
    else copyPathRemovingDots parts.path
  parts.portEnd ++ slash ++ appendEscapingBadChars path

def queryEnd (url : List Byte) : List Byte :=
  parts.pathEnd url ++ appendEscapingBadChars parts.query

def fragmentEnd (url : List Byte) : List Byte :=
  parts.queryEnd url ++
    if parts.fragment ≠ [] then 0x23 :: appendEscapingBadChars parts.fragment.tail else []

end Parts

structure KURL where
  string : Text
  isValid : Bool := false
  protocolInHTTPFamily : Bool := false
  schemeEnd : Nat := 0
  userStart : Nat := 0
  userEnd : Nat := 0
  passwordEnd : Nat := 0
  hostEnd : Nat := 0
  portEnd : Nat := 0
  pathEnd : Nat := 0
  pathAfterLastSlash : Nat := 0
  queryEnd : Nat := 0
  fragmentEnd : Nat := 0

namespace KURL

/-- `m_string` of an invalid URL keeps what was given. -/
def invalid (url : List Byte) : KURL := { string := widen url }

/-- The second half of `parse`. -/
def assemble (url : List Byte) (parts : Parts) : KURL where
  string := widen (parts.fragmentEnd url)
  isValid := true
  protocolInHTTPFamily := parts.protocolInHTTPFamily
  schemeEnd := parts.scheme.length
  userStart := parts.userStart.length
  userEnd := parts.userEnd.length
  passwordEnd := parts.passwordEnd.length
  hostEnd := parts.hostEnd.length
  portEnd := parts.portEnd.length
  pathEnd := (parts.pathEnd url).length
  pathAfterLastSlash := parts.portEnd.length +
    (((parts.pathEnd url).drop parts.portEnd.length).rdropWhile (· ≠ 0x2f)).length
  queryEnd := (parts.queryEnd url).length
  fragmentEnd := (parts.fragmentEnd url).length

/-- `parse`. The original string is only kept when it has the same characters. -/
def parse (url : List Byte) : KURL :=
  match splitURL url with
  | none => invalid url
  | some parts => assemble url parts

end KURL

end WkcBrowser.Url
