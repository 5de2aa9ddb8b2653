import WkcBrowser.Lib.Loop
import WkcBrowser.Mhtml.Archive
import WkcBrowser.Wtf.StringImpl

/-! The reader of an MHTML file, `parseRawDataRepresentation`. It is one loop over `m_status`; a turn
of the loop is `parseTurn`, and the fall through from `READ_CONTENT` to `ADD_RESOURCE` is a turn of
its own. -/

namespace WkcBrowser.Mhtml
open Wtf Lib

/-- The length of the line end the buffer begins with, if it begins with one. -/
def isEndOfLine : List Byte → Nat
  | 13 :: 10 :: _ => 2
  | 13 :: _ => 1
  | 10 :: _ => 1
  | _ => 0

/-- The length of the first line with its line end. -/
def calcLineLength : List Byte → Nat
  | [] => 0
  | b :: rest =>
    if 0 < isEndOfLine (b :: rest) then isEndOfLine (b :: rest) else calcLineLength rest + 1

def isWSP (b : Byte) : Bool := decide (b = 32) || decide (b = 9)

def isAlphaNum (b : Byte) : Bool :=
  decide (97 ≤ b ∧ b ≤ 122) || decide (65 ≤ b ∧ b ≤ 90) || decide (48 ≤ b ∧ b ≤ 57)

/-- `HEADER_STATE_*` -/
inductive HeaderState where
  | name
  | value
  | valueFolding
  | headerEnd
deriving DecidableEq, Repr

/-- What one call of `parseHeader` returns and stores through its pointers. A pointer it leaves
alone is the empty list here. -/
structure HeaderLine where
  length : Nat := 0
  name : List Byte := []
  value : List Byte := []
  status : HeaderState
deriving DecidableEq, Repr

/-- From the first byte of a value on. -/
def parseHeaderValue (status : HeaderState) : List Byte → HeaderLine
  | [] => { status }
  | b :: rest =>
    if 0 < isEndOfLine (b :: rest) then { length := isEndOfLine (b :: rest), status := .name } else
    let line := parseHeaderValue status rest
    { line with length := line.length + 1, value := b :: line.value }

/-- In the state `HEADER_STATE_NAME`, the given bytes of the name being read. -/
def parseHeaderName (name : List Byte) : List Byte → Option HeaderLine
  | [] => some { status := .name }
  | b :: rest =>
    if name.isEmpty && decide (0 < isEndOfLine (b :: rest)) then
      some { length := isEndOfLine (b :: rest), status := .headerEnd }
    else if name.isEmpty && isWSP b then
      let line := parseHeaderValue .valueFolding rest
      some { line with length := line.length + 1 }
    else if isAlphaNum b || decide (b = 45) then
      parseHeaderName (name ++ [b]) rest
    else if b = 58 then
      let line := parseHeaderValue .value rest
      some { line with length := name.length + 1 + line.length, name }
    else none

/-- Returns nothing for `-1`. -/
def parseHeader (buf : List Byte) (status : HeaderState) : Option HeaderLine :=
  match status with
  | .name => parseHeaderName [] buf
  | .value | .valueFolding => some (parseHeaderValue status buf)
  | .headerEnd => some { status := .headerEnd }

/-- The text between the first two quotes, or a null string. -/
def getQuotationString (sValue : Text) : Option Text :=
  match sValue.dropWhile (· ≠ 34) with
  | [] => none
  | _ :: inner => if 34 ∈ inner then some (inner.takeWhile (· ≠ 34)) else none

def stripWhiteAndSemicolon (sValue : Text) : Text :=
  let tmp := stripWhiteSpace sValue
  if [59] <:+ tmp then tmp.dropLast else tmp

/-- `PARSE_STATE_*` -/
inductive ParseStatus where
  | parseHeader
  | readContent
  | addResource
  | parseEnd
deriving DecidableEq, Repr

/-- The locals and members of `parseRawDataRepresentation`, with `p` and `rest_len` as the bytes that
are left. `boundary` and `m_mainResourceType` are tested for being null. `added` are the resources
handed to `addMimeResource`, in order. -/
structure ParseState where
  status : ParseStatus := .parseHeader
  rest : List Byte
  isMultipart : Bool := false
  headerStatus : HeaderState := .name
  boundary : Option Text := none
  type : Text := []
  location : Text := []
  charset : Text := []
  rawData : List Byte := []
  mainResourceType : Option Text := none
  added : List ArchiveResource := []
deriving DecidableEq, Repr

def getHeaderInfo (sName sValue : Text) (s : ParseState) : ParseState :=
  if !sName.isEmpty then
    if equalIgnoringCase (stripWhiteSpace sName) (widen (ascii "Content-Type")) then
      { s with type := stripWhiteAndSemicolon sValue }
    else if equalIgnoringCase (stripWhiteSpace sName) (widen (ascii "Content-Location")) then
      { s with location := stripWhiteSpace sValue }
    else s
  else if (findIgnoringCase (widen (ascii "boundary=")) sValue).isSome then
    if s.boundary.isNone then { s with boundary := getQuotationString sValue } else s
  else if (findIgnoringCase (widen (ascii "charset=")) sValue).isSome then
    { s with charset := (getQuotationString sValue).getD [] }
  else s

/-- What `parseRawDataRepresentation` does with one field of the header. -/
def readHeaderField (sName sValue : Text) (s : ParseState) : ParseState :=
  let s := getHeaderInfo sName sValue s
  if equalIgnoringCase (stripWhiteSpace sName) (widen (ascii "Content-Type")) &&
    (findIgnoringCase (widen (ascii "multipart/related")) sValue).isSome then
    { s with isMultipart := true }
  else s

def isEndBoundary (line : List Byte) (boundary : Text) : Bool :=
  if boundary.isEmpty then false else
  if line.length < 2 then false else
  let bufLen := line.length - 2
  if bufLen < boundary.length + 2 then false else
  let ends (p : List Byte) (restLen : Nat) : Bool :=
    decide (find boundary (widen (p.take restLen)) = some 0) &&
      decide (p.getD boundary.length 0 = 45) && decide (p.getD (boundary.length + 1) 0 = 45)
  if bufLen < boundary.length + 4 then ends line bufLen else
  if !(decide (line.getD 0 0 = 45) && decide (line.getD 1 0 = 45)) then false else
  ends (line.drop 2) (bufLen - 2)

def isBoundary (line : List Byte) (boundary : Text) : Bool :=
  if boundary.isEmpty then false else
  if line.length < boundary.length + 2 then false else
  if !(decide (line.getD 0 0 = 45) && decide (line.getD 1 0 = 45)) then false else
  decide (find boundary (widen (line.drop 2)) = some 0)

/-- Lines of the main header, and of a part without location, are not kept. -/
def appendLine (line : List Byte) (s : ParseState) : ParseState :=
  if equalIgnoringCase s.type (widen (ascii "multipart/related")) || s.location.isEmpty then s
  else { s with rawData := s.rawData ++ line }

section
variable (parsedURL : Text → Text)

/-- The block under `if (!raw_data.isEmpty())`. `KURL(ParsedURLString, location).string()` is
`parsedURL`. -/
def addRawData (s : ParseState) : ParseState :=
  let s := if s.mainResourceType.isNone then
      if !s.type.isEmpty then { s with mainResourceType := some s.type }
      else
        let type := widen (ascii "text/html")
        { s with type, mainResourceType := some type }
    else s
  let rawdatasize := s.rawData.length
  -- the line end before a boundary belongs to the boundary
  let rawdatasize :=
    if decide (2 < rawdatasize) && s.isMultipart && decide (s.rawData.getD (rawdatasize - 2) 0 = 13) &&
      decide (s.rawData.getD (rawdatasize - 1) 0 = 10) then rawdatasize - 2 else rawdatasize
  { s with
    rawData := []
    added := s.added ++
      [{ url := parsedURL s.location, mimeType := s.type, textEncoding := s.charset
         data := s.rawData.take rawdatasize }] }

def finishResource (s : ParseState) : ParseState :=
  let s := if !s.rawData.isEmpty then addRawData parsedURL s else s
  { s with type := [], location := [], charset := [] }

def parseTurn (s : ParseState) : Loop.Turn ParseState (Option ParseState) :=
  match s.status with
  | .parseHeader =>
    match parseHeader s.rest s.headerStatus with
    | none => .done none
    | some line =>
      let s := { s with headerStatus := line.status }
      if line.length = 0 then
        if s.isMultipart && (s.boundary.getD []).isEmpty then .done none
        else .again { s with status := .readContent }
      else
        .again (readHeaderField (widen line.name) (widen line.value)
          { s with rest := s.rest.drop line.length })
  | .readContent =>
    let len := calcLineLength s.rest
    let line := s.rest.take len
    let boundary := s.boundary.getD []
    if isEndBoundary line boundary || isBoundary line boundary then
      .again { s with rest := s.rest.drop len, status := .addResource }
    else
      let s : ParseState := { appendLine line s with rest := s.rest.drop len }
      if 0 < s.rest.length then .again s else .again { s with status := .addResource }
  | .addResource =>
    let s := finishResource parsedURL s
    if 0 < s.rest.length then .again { s with headerStatus := .name, status := .parseHeader }
    else if s.mainResourceType.isNone then .done none
    else .again { s with status := .parseEnd }
  | .parseEnd => .done (some s)

/-- Falls with every turn: what is left to read counts first, then the state the loop is in. -/
def parseSize (s : ParseState) : Nat :=
  4 * s.rest.length +
    match s.status with
    | .parseHeader => if s.rest.isEmpty then 3 else 2
    | .readContent => if s.rest.isEmpty then 2 else 1
    | .addResource => if s.rest.isEmpty then 1 else 3
    | .parseEnd => 0

/-- Returns nothing for `false`. -/
def parseRawDataRepresentation (data : List Byte) : Option ParseState :=
  (Loop.run (parseTurn parsedURL) parseSize { rest := data }).join

end

/-- The archive members `addMimeResource` fills. `m_multipartStack` is never pushed to on this
platform, so the two tests that search it fail. -/
structure ParsedArchive where
  mainResource : Option ArchiveResource := none
  subresources : List ArchiveResource := []
  subframeArchives : List ArchiveResource := []
deriving DecidableEq, Repr

def addMimeResource (mainResourceType : Option Text) (archive : ParsedArchive)
    (resource : ArchiveResource) : ParsedArchive :=
  if archive.mainResource.isNone && decide (some resource.mimeType = mainResourceType) then
    { archive with mainResource := some resource }
  else if resource.mimeType = widen (ascii "text/html") ∨
      resource.mimeType = widen (ascii "application/xhtml+xml") then
    { archive with subframeArchives := archive.subframeArchives ++ [resource] }
  else { archive with subresources := archive.subresources ++ [resource] }

def ParseState.archive (s : ParseState) : ParsedArchive :=
  s.added.foldl (addMimeResource s.mainResourceType) {}

end WkcBrowser.Mhtml
