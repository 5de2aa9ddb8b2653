import WkcBrowser.Url.KURL

/-! What is read from a parsed URL, and how a URL is made from a text. -/

namespace WkcBrowser.Url

open Wtf

/-- The text services of the platform: UTF-8 and the small letter of a character. -/
structure Characters where
  decodeUTF8 : List Byte → Text
  encodeUTF8 : Text → List Byte
  toLower : UChar → UChar

/-- The bytes of a literal as characters. -/
def literal (text : String) : Text := widen (ascii text)

def isASCIIHexDigit (c : UChar) : Bool :=
  0x30 ≤ c && c ≤ 0x39 || 0x41 ≤ c && c ≤ 0x46 || 0x61 ≤ c && c ≤ 0x66

def hexDigitValue (c : UChar) : Byte :=
  if c < 0x41 then (c - 0x30).toUInt8 else ((c - 0x41 + 10) &&& 0xf).toUInt8

/-- The bytes of the escapes that a text begins with, and the text after them. -/
def escapedRun : Text → List Byte × Text
  | percent :: high :: low :: rest =>
    if percent = 0x25 && isASCIIHexDigit high && isASCIIHexDigit low then
      let (run, rest) := escapedRun rest
      ((hexDigitValue high <<< 4 ||| hexDigitValue low) :: run, rest)
    else ([], percent :: high :: low :: rest)
  | text => ([], text)

theorem escapedRun_length (text : Text) :
    3 * (escapedRun text).1.length + (escapedRun text).2.length = text.length := by
  induction text using escapedRun.induct with
  | case1 percent high low rest isEscape ih =>
    rw [escapedRun, if_pos isEscape]
    simp only [List.length_cons]
    omega
  | case2 percent high low rest isEscape =>
    rw [escapedRun, if_neg isEscape]
    simp
  | case3 text other => simp [escapedRun]

variable (characters : Characters)

/-- The loop of `decodeURLEscapeSequences`. Escapes stay when nothing is decoded from them. -/
def decodeURLEscapeSequences (text : Text) : Text :=
  match text with
  | [] => []
  | c :: rest =>
    let run := (escapedRun (c :: rest)).1
    if run = [] then c :: decodeURLEscapeSequences rest
    else
      let decoded := characters.decodeUTF8 run
      (if decoded = [] then (c :: rest).take (3 * run.length) else decoded) ++
        decodeURLEscapeSequences (escapedRun (c :: rest)).2
termination_by text.length
decreasing_by
  · simp
  · have whole := escapedRun_length (c :: rest)
    have some_run : 0 < (escapedRun (c :: rest)).1.length := List.length_pos_iff.mpr ‹_›
    omega

/-- `String::lower` -/
def lower (text : Text) : Text :=
  if text.all (· ≤ 0x7f) then text.map toASCIILower else text.map characters.toLower

/-- `toIntegralType` for base 10. -/
def toIntegralType (integralMax : Nat) (isSigned : Bool) (text : Text) : Option Int :=
  let text := text.dropWhile isSpaceOrNewline
  let isNegative : Bool := isSigned && text.head? = some 0x2d
  let text := if isNegative || text.head? = some 0x2b then text.tail else text
  let digits := text.takeWhile fun c => 0x30 ≤ c && c ≤ 0x39
  if digits = [] then none
  else
    let value := digits.foldl (fun value c => value * 10 + (c.toNat - 0x30)) 0
    if value > integralMax + (if isNegative then 1 else 0) then none
    else if (text.drop digits.length).dropWhile isSpaceOrNewline ≠ [] then none
    else some (if isNegative then -value else value)

/-- `String::toInt` reads the number that a text begins with. -/
def toInt (text : Text) : Option Int :=
  let spaces := text.takeWhile isSpaceOrNewline
  let afterSpaces := text.dropWhile isSpaceOrNewline
  let sign := afterSpaces.take
    (if afterSpaces.head? = some 0x2b || afterSpaces.head? = some 0x2d then 1 else 0)
  let digits := (afterSpaces.drop sign.length).takeWhile fun c => 0x30 ≤ c && c ≤ 0x39
  toIntegralType 0x7fffffff true (spaces ++ sign ++ digits)

/-- The digits that `String::number` gives. -/
def number (n : Nat) : Text := (Nat.toDigits 10 n).map fun c => UInt16.ofNat c.toNat

def maximumValidPortNumber : Nat := 0xfffe

def invalidPortNumber : Nat := 0xffff

namespace KURL

variable (url : KURL)

def substring (start length : Nat) : Text := (url.string.drop start).take length

def protocol : Text := url.string.take url.schemeEnd

def hostStart : Nat :=
  if url.passwordEnd = url.userStart then url.passwordEnd else url.passwordEnd + 1

def host : Text :=
  decodeURLEscapeSequences characters (url.substring url.hostStart (url.hostEnd - url.hostStart))

def port : Nat :=
  if url.hostEnd = url.portEnd ∨ url.hostEnd = url.portEnd - 1 then 0
  else
    match toIntegralType 0xffffffff false
        (url.substring (url.hostEnd + 1) (url.portEnd - url.hostEnd - 1)) with
    | none => invalidPortNumber
    | some number => if number > maximumValidPortNumber then invalidPortNumber else number.toNat

def hasPath : Bool := url.pathEnd ≠ url.portEnd

def path : Text :=
  decodeURLEscapeSequences characters (url.substring url.portEnd (url.pathEnd - url.portEnd))

/-- `KURL()` -/
def empty : KURL := { string := [] }

end KURL

def isDefaultPortForProtocol (port : Nat) (protocol : Text) : Bool :=
  if protocol = [] then false
  else if protocol = literal "http" then port = 80
  else if protocol = literal "https" then port = 443
  else if protocol = literal "ftp" then port = 21
  else if protocol = literal "ftps" then port = 990
  else port = 0

/-! How a text becomes a URL. -/

def protocolIs (url protocol : Text) : Bool :=
  (url.take protocol.length).map toASCIILower = protocol && url.getD protocol.length 0 = 0x3a

def substituteBackslashes (text : Text) : Text :=
  let path := text.takeWhile fun c => c ≠ 0x3f && c ≠ 0x23
  (path.map fun c => if c = 0x5c then 0x2f else c) ++ text.drop path.length

/-- Without a library for international names the build appends nothing for a name that is not ASCII. -/
def appendEncodedHostname (name : Text) : Text :=
  if 2048 < name.length || name.all (· ≤ 0x7f) then name else []

/-- The start and the length of the name that `findHostnameInHierarchicalURL` finds. -/
def findHostnameInHierarchicalURL (text : Text) : Option (Nat × Nat) :=
  let scheme := text.takeWhile (· ≠ 0x3a)
  if scheme.length + 2 ≥ text.length || text.getD (scheme.length + 1) 0 ≠ 0x2f ||
      text.getD (scheme.length + 2) 0 ≠ 0x2f then none
  else if !(scheme.headD 0x3a ≤ 0xff && isSchemeFirstChar (scheme.headD 0x3a).toUInt8) then none
  else if !scheme.tail.all fun c => c ≤ 0xff && isSchemeChar c.toUInt8 then none
  else
    let authority := (text.drop (scheme.length + 3)).takeWhile fun c =>
      !(c = 0x3a || c = 0x23 || c = 0x2f || c = 0x3f)
    let userInfo := authority.takeWhile (· ≠ 0x40)
    if userInfo.length = authority.length then some (scheme.length + 3, authority.length)
    else
      some (scheme.length + 3 + userInfo.length + 1, authority.length - userInfo.length - 1)

/-- Where a `mailto:` URL is being read. -/
inductive MailToState where
  | outside
  /-- In a name, with what of it is read. -/
  | name (read : Text)
  | quoted
  | escaped

/-- A `mailto:` URL with the names encoded that `findHostnamesInMailToURL` finds. -/
def encodeMailTo : MailToState → Text → Text
  | .name read, [] => appendEncodedHostname read
  | _, [] => []
  | .outside, c :: rest =>
    if c = 0x3f then c :: rest
    else if c = 0x40 then c :: encodeMailTo (.name []) rest
    else if c = 0x22 then c :: encodeMailTo .quoted rest
    else c :: encodeMailTo .outside rest
  | .name read, c :: rest =>
    if c = 0x3f then appendEncodedHostname read ++ c :: rest
    else if c = 0x3e || c = 0x2c then
      appendEncodedHostname read ++ c :: encodeMailTo .outside rest
    else encodeMailTo (.name (read ++ [c])) rest
  | .quoted, c :: rest =>
    c :: encodeMailTo
      (if c = 0x22 then .outside else if c = 0x5c then .escaped else .quoted) rest
  | .escaped, c :: rest => c :: encodeMailTo .quoted rest

def encodeHostnames (text : Text) : Text :=
  if protocolIs text (literal "mailto") then encodeMailTo .outside text
  else
    match findHostnameInHierarchicalURL text with
    | none => text
    | some (start, length) =>
      text.take start ++ appendEncodedHostname ((text.drop start).take length) ++
        text.drop (start + length)

/-- The bytes before the end of a C string. -/
def cString (bytes : List Byte) : List Byte := bytes.takeWhile (· ≠ 0)

/-- `KURL(KURL(), relative)`, with UTF-8 for all of the text. -/
def KURL.create (relative : Text) : KURL :=
  let rel :=
    if relative.contains 0x5c &&
        !(protocolIs relative (literal "javascript") || protocolIs relative (literal "data")) then
      substituteBackslashes relative
    else relative
  let bytes :=
    if rel.all (· ≤ 0x7f) then narrow rel
    else cString (characters.encodeUTF8 (encodeHostnames rel))
  let str := cString ((bytes.dropWhile (· = 0x20)).rdropWhile (· = 0x20))
  let scheme := str.takeWhile isSchemeChar
  if isSchemeFirstChar (str.headD 0) && (str.drop scheme.length).headD 0 = 0x3a then KURL.parse str
  else if str.headD 0 = 0x23 then KURL.parse str
  else { string := relative }

end WkcBrowser.Url
