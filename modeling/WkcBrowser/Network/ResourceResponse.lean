import WkcBrowser.Wtf.StringImpl

/-! The response of a load: the map of its header fields, the values that are derived from them and
the response object that collects both. `KURL`, the MIME registry, the decoders of `data:` URLs and
the tables of Unicode case folding are the parameters of `Platform`. -/

namespace WkcBrowser.Network

open Wtf

structure Platform where
  foldCase : UChar → UChar
  /-- `String::lower`. -/
  lower : Text → Text
  /-- `KURL(base, relative)`. -/
  resolve : Text → Text → Text
  protocol : Text → Text
  hasPath : Text → Bool
  query : Text → Text
  lastPathComponent : Text → Text
  removeFragmentIdentifier : Text → Text
  getMIMETypeForPath : Text → Text
  /-- The characters in the given encoding. -/
  decodeURLEscapeSequences : Text → Text → Text
  base64Decode : List Byte → Option (List Byte)

/-- An entry has the value `none` when it was set to the null string. -/
abbrev HTTPHeaderMap := List (Text × Option Text)

def fold (platform : Platform) (name : Text) : Text :=
  name.map platform.foldCase

/-- A field that is missing and one that was set to null are both null. -/
def HTTPHeaderMap.get (platform : Platform) (name : Text) : HTTPHeaderMap → Option Text
  | [] => none
  | (key, value) :: rest =>
    if fold platform key = fold platform name then value else get platform name rest

/-- An entry that exists keeps its place and its spelling. -/
def HTTPHeaderMap.set (platform : Platform) (name : Text) (value : Option Text) :
    HTTPHeaderMap → HTTPHeaderMap
  | [] => [(name, value)]
  | (key, old) :: rest =>
    if fold platform key = fold platform name then (key, value) :: rest
    else (key, old) :: set platform name value rest

/-- The characters of a string literal of the source. -/
def text (literal : String) : Text :=
  widen (ascii literal)

section
variable (mediaType : Text)

def extractMIMETypeFromMediaType : Text :=
  (mediaType.takeWhile fun c => decide (c ≠ 59) && decide (c ≠ 44)).filter fun c =>
    !isSpaceOrNewline c

def isQuote (c : UChar) : Bool :=
  decide (c = 34) || decide (c = 39)

/-- The index behind the units from `pos` on that satisfy `skip`. -/
def skipWhile (skip : UChar → Bool) (pos : Nat) : Nat :=
  pos + ((mediaType.drop pos).takeWhile skip).length

/-- `turns` bounds the number of `charset` substrings, each of which is longer than a unit. -/
def charsetFrom : Nat → Nat → Text
  | 0, _ => []
  | turns + 1, pos =>
    match findIgnoringCase (text "charset") (mediaType.drop pos) with
    | none => []
    | some found =>
      let pos := pos + found
      if pos = 0 then []
      -- is what we found a beginning of a word?
      else if 32 < mediaType.getD (pos - 1) 0 ∧ mediaType.getD (pos - 1) 0 ≠ 59 then
        charsetFrom turns (pos + 7)
      else
        let pos := skipWhile mediaType (· ≤ 32) (pos + 7)
        -- this "charset" substring wasn't a parameter name, but there may be others
        if mediaType.getD pos 0 ≠ 61 then charsetFrom turns (pos + 1)
        else
          let pos := skipWhile mediaType (fun c => decide (c ≤ 32) || isQuote c) (pos + 1)
          (mediaType.drop pos).takeWhile fun c => decide (32 < c) && !isQuote c && decide (c ≠ 59)

def extractCharsetFromMediaType : Text :=
  charsetFrom mediaType mediaType.length 0

end

/-- `String::split`, which leaves out empty entries. -/
def splitText (separator : UChar) (value : Text) : List Text :=
  (value.splitOn separator).filter fun entry => !entry.isEmpty

def filenameOf : List Text → Text
  | [] => []
  | entry :: rest =>
    match find [61] entry with
    | none => filenameOf rest
    | some valueStartPos =>
      let key := stripWhiteSpace (entry.take valueStartPos)
      if key ≠ text "filename" then filenameOf rest
      else
        let value := stripWhiteSpace (entry.drop (valueStartPos + 1))
        -- Remove quotes if there are any
        if value.getD 0 0 = 34 then (value.drop 1).take (value.length - 2) else value

def filenameFromHTTPContentDisposition (value : Text) : Text :=
  filenameOf (splitText 59 value)

def guessMIMETypeByURL (platform : Platform) (kurl : Text) (httpCode : Nat) : Text :=
  if httpCode = 200 then
    if platform.query kurl ≠ [] then text "application/octet-stream"
    else if !platform.hasPath kurl then text "text/html"
    else if platform.lastPathComponent kurl = [] then text "text/html"
    else platform.getMIMETypeForPath (platform.lastPathComponent kurl)
  else if httpCode < 200 ∨ httpCode = 204 ∨ httpCode = 205 ∨ httpCode = 304 then []
  else text "text/html"

structure ResourceResponse where
  url : Text := []
  mimeType : Text := []
  expectedContentLength : Int := 0
  textEncodingName : Text := []
  suggestedFilename : Text := []
  httpStatusCode : Nat := 0
  httpStatusText : Text := []
  httpHeaderFields : HTTPHeaderMap := []
  responseFired : Bool := false
deriving DecidableEq

namespace ResourceResponse
variable (platform : Platform) (response : ResourceResponse)

def httpHeaderField (name : Text) : Option Text :=
  response.httpHeaderFields.get platform name

def setHTTPHeaderField (name : Text) (value : Option Text) : ResourceResponse :=
  { response with httpHeaderFields := response.httpHeaderFields.set platform name value }

def isHTTP : Bool :=
  equalIgnoringCase (platform.protocol response.url) (text "http") ||
    equalIgnoringCase (platform.protocol response.url) (text "https")

end ResourceResponse

section
variable {platform : Platform}

theorem HTTPHeaderMap.get_congr {a b : Text} (same : fold platform a = fold platform b)
    (map : HTTPHeaderMap) : map.get platform a = map.get platform b := by
  induction map with
  | nil => rfl
  | cons entry rest ih => rw [get, get, same, ih]

/-- A field that is set is the one that is read. -/
theorem HTTPHeaderMap.get_set (map : HTTPHeaderMap) (name other : Text) (value : Option Text) :
    (map.set platform name value).get platform other =
      if fold platform name = fold platform other then value else map.get platform other := by
  induction map with
  | nil => rfl
  | cons entry rest ih =>
    obtain ⟨key, old⟩ := entry
    rw [set]
    by_cases same : fold platform key = fold platform name
    · rw [if_pos same, get, get, same]
      split <;> rfl
    · rw [if_neg same, get, get, ih]
      by_cases here : fold platform key = fold platform other
      · rw [if_pos here, if_pos here, if_neg fun equal => same (here.trans equal.symm)]
      · rw [if_neg here, if_neg here]

end

/-- `KURL` as far as an example needs it. -/
def examplePlatform : Platform where
  foldCase := toASCIILower
  lower := List.map toASCIILower
  resolve _ relative := relative
  protocol url := url.takeWhile (· ≠ 58)
  hasPath _ := true
  query _ := []
  lastPathComponent url := url.reverse.takeWhile (· ≠ 47) |>.reverse
  removeFragmentIdentifier := id
  getMIMETypeForPath _ := text "text/html"
  decodeURLEscapeSequences data _ := data
  base64Decode _ := none

end WkcBrowser.Network
