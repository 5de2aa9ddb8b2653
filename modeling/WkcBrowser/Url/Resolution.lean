import WkcBrowser.Lib.Writer
import WkcBrowser.Url.Components

/-! How `KURL` resolves a reference against a base URL, with all buffers that it writes to. -/

namespace WkcBrowser.Url

open Lib Wtf

/-! The writing of `parse`. -/

def escapeInto (p : Writer Byte) (text : List Byte) : Writer Byte :=
  text.foldl
    (fun p c =>
      if isBadChar c then
        if c = 0x25 || c = 0x3f then p.put c
        else if c ≠ 0x09 && c ≠ 0x0a && c ≠ 0x0d then
          ((p.put 0x25).put (hexDigits.getD (c.toNat / 16) 0)).put (hexDigits.getD (c.toNat % 16) 0)
        else p
      else p.put c)
    p

/-- The loop of `copyPathRemovingDots`. -/
def copySegmentsInto : Nat → Writer Byte → List Byte → Writer Byte
  | _, dst, [] => dst
  | skip + 1, dst, _ :: rest => copySegmentsInto skip dst rest
  | 0, dst, c :: rest =>
    if c = 0x2e && dst.before.head? = some 0x2f then
      if rest.headD 0x2f = 0x2f then copySegmentsInto 1 dst rest
      else if rest.headD 0 = 0x2e && rest.tail.headD 0x2f = 0x2f then
        copySegmentsInto 2 (dst.back (rewindSegment dst.before)) rest
      else copySegmentsInto 0 (dst.put c) rest
    else copySegmentsInto 0 (dst.put c) rest

/-- It ends what it copied with a null byte. -/
def copyPathInto (path : List Byte) : Writer Byte :=
  match path with
  | [] => ({} : Writer Byte).terminate
  | slash :: rest => (copySegmentsInto 0 (({} : Writer Byte).put slash) rest).terminate

/-- What is written for the scheme and the authority. -/
def authorityInto (parts : Parts) : Writer Byte :=
  let p := (({} : Writer Byte).puts parts.scheme).put 0x3a
  if parts.hasAuthority then
    let p := ((p.put 0x2f).put 0x2f).puts parts.authority.user
    let p := if parts.authority.password ≠ [] then (p.put 0x3a).puts parts.authority.password else p
    let p := if p.before.length ≠ parts.userStart.length then p.put 0x40 else p
    let p :=
      if !(parts.isFile && parts.hostIsLocalHost && !parts.haveNonHostAuthorityPart) then
        p.puts parts.authority.host
      else p
    match parts.authority.port with
    | some port => (p.put 0x3a).puts port
    | none => p
  else p

/-- The buffer of the path, where dots are removed from it. -/
def pathBuffer (url : List Byte) (parts : Parts) : Option (Buffer Byte) :=
  if !parts.hierarchical || !hasSlashDotOrDotDot url then none
  else some ⟨parts.path.length + 1, copyPathInto parts.path⟩

/-- What is written of the canonical text. -/
def assembleInto (url : List Byte) (parts : Parts) : Writer Byte :=
  let p := authorityInto parts
  let p := if parts.protocolInHTTPFamily && parts.hierarchical && parts.path = [] then p.put 0x2f else p
  let p := escapeInto p (((pathBuffer url parts).map (·.writer.before.reverse)).getD parts.path)
  let p := escapeInto p parts.query
  if parts.fragment ≠ [] then escapeInto (p.put 0x23) parts.fragment.tail else p

/-- The buffers that `parse` allocates. -/
def parseBuffers (url : List Byte) : List (Buffer Byte) :=
  match splitURL url with
  | none => []
  | some parts => ⟨url.length * 3 + 1, assembleInto url parts⟩ :: (pathBuffer url parts).toList

/-! Resolution. -/

/-- The last bytes up to a slash are taken off while more than some bytes are left. -/
def dropToSlash (least : Nat) : List Byte → List Byte
  | [] => []
  | c :: before =>
    if before.length + 1 > least && c ≠ 0x2f then dropToSlash least before else c :: before

/-- What is left of a path that starts behind some bytes when a segment of two dots comes. -/
def rewindRelative (pathStart : Nat) (before : List Byte) : List Byte :=
  dropToSlash (pathStart + 1) (if before.length > pathStart + 1 then before.tail else before)

/-- The loop over the path of a reference, with the number of bytes to skip. What is left of the
reference comes with what is written. -/
def resolveInto (pathStart : Nat) : Nat → Writer Byte → List Byte → Writer Byte × List Byte
  | _, p, [] => (p, [])
  | skip + 1, p, _ :: rest => resolveInto pathStart skip p rest
  | 0, p, c :: rest =>
    if c = 0x3f || c = 0x23 then (p, c :: rest)
    else if c = 0x2e && p.before.head? = some 0x2f then
      if isPathSegmentEndChar (rest.headD 0) then
        resolveInto pathStart (if rest.head? = some 0x2f then 1 else 0) p rest
      else if rest.headD 0 = 0x2e && isPathSegmentEndChar (rest.tail.headD 0) then
        resolveInto pathStart (if rest.tail.head? = some 0x2f then 2 else 1)
          (p.back (rewindRelative pathStart p.before)) rest
      else resolveInto pathStart 0 (p.put c) rest
    else resolveInto pathStart 0 (p.put c) rest

namespace KURL

variable (base : KURL)

def isHierarchical : Bool := base.isValid && base.string.getD (base.schemeEnd + 1) 0 = 0x2f

/-- What is parsed for a reference with a relative path. -/
def resolvePath (str : List Byte) : Writer Byte :=
  let baseString := narrow base.string
  let p := ({} : Writer Byte).puts (baseString.take base.portEnd)
  let path := ((baseString.take base.pathEnd).drop base.portEnd).rdropWhile (· ≠ 0x2f)
  let p :=
    if path = [] then
      if base.schemeEnd + 1 ≠ base.pathEnd && str ≠ [] && str.head? ≠ some 0x3f &&
          str.head? ≠ some 0x23 then
        p.put 0x2f
      else p
    else p.splice (copyPathInto path)
  let (p, rest) := resolveInto base.portEnd 0 p str
  (p.puts rest).terminate

/-- A URL, and the buffers that were written to for it. -/
structure Resolved where
  url : KURL
  buffers : List (Buffer Byte) := []

/-- A buffer of a size is parsed. -/
def parseBuffer (size : Nat) (p : Writer Byte) : Resolved :=
  let text := cString p.before.reverse
  ⟨parse text, ⟨size, p⟩ :: parseBuffers text⟩

/-- `appendASCII`, which copies as many bytes of the reference as it is told, and `parse`. -/
def parseAppended (front str : List Byte) (len : Nat) : Resolved :=
  let copied : Writer Byte := ⟨(front ++ str).reverse, front.length + len⟩
  parseBuffer (front.length + len + 1) { copied with high := front.length + len + 1 }

end KURL

/-- An encoding for the query of a reference, if it is valid and is not UTF-8. -/
abbrev QueryEncoding := Option (Text → List Byte)

section
variable (characters : Characters)

def encodeRelativeString (rel : Text) (encoding : QueryEncoding) : List Byte :=
  let s := encodeHostnames rel
  match encoding with
  | none => characters.encodeUTF8 s
  | some encodeOther =>
    if protocolIs rel (literal "mailto") || protocolIs rel (literal "data") ||
        protocolIs rel (literal "javascript") || !s.any fun c => c = 0x23 || c = 0x3f then
      characters.encodeUTF8 s
    else
      let pathEnd := (s.takeWhile fun c => !(c = 0x23 || c = 0x3f)).length
      characters.encodeUTF8 (s.take pathEnd) ++ encodeOther (s.drop pathEnd)

/-- The bytes that a reference is read from, and their length as `init` counts it. -/
def relativeBytes (relative : Text) (encoding : QueryEncoding) : List Byte × Nat :=
  let rel :=
    if relative.contains 0x5c &&
        !(protocolIs relative (literal "javascript") || protocolIs relative (literal "data")) then
      substituteBackslashes relative
    else relative
  let bytes :=
    if rel.all (· ≤ 0x7f) then narrow rel else cString (encodeRelativeString characters rel encoding)
  let trimmed := (bytes.dropWhile (· = 0x20)).rdropWhile (· = 0x20)
  (cString trimmed, trimmed.length)

namespace KURL

/-- A reference that is not absolute. -/
def resolveRelative (base : KURL) (relative : Text) (str : List Byte) (len : Nat) : Resolved :=
  if !base.isHierarchical then
    if str.headD 0 = 0x23 then parseAppended (narrow (base.string.take base.queryEnd)) str len
    else ⟨{ string := relative }, []⟩
  else if str.headD 0 = 0 then ⟨base, []⟩
  else if str.headD 0 = 0x23 then parseAppended (narrow (base.string.take base.queryEnd)) str len
  else if str.headD 0 = 0x3f then parseAppended (narrow (base.string.take base.pathEnd)) str len
  else if str.headD 0 = 0x2f then
    if str.tail.headD 0 = 0x2f then
      parseAppended (narrow (base.string.take (base.schemeEnd + 1))) str len
    else parseAppended (narrow (base.string.take base.portEnd)) str len
  else parseBuffer (base.pathEnd + 1 + len + 1) (base.resolvePath str)

def init (base : KURL) (relative : Text) (encoding : QueryEncoding) : Resolved :=
  if !base.isValid && base.string ≠ [] then ⟨{ string := relative }, []⟩
  else
    let (str, len) := relativeBytes characters relative encoding
    let scheme := str.takeWhile isSchemeChar
    let afterScheme := str.drop scheme.length
    if isSchemeFirstChar (str.headD 0) && afterScheme.headD 0 = 0x3a then
      if afterScheme.tail.headD 0 ≠ 0x2f && equalIgnoringCase base.protocol (widen scheme) &&
          base.isHierarchical then
        -- The length still counts the scheme that is skipped.
        base.resolveRelative relative afterScheme.tail len
      else ⟨parse str, parseBuffers str⟩
    else base.resolveRelative relative str len

end KURL

end

end WkcBrowser.Url
