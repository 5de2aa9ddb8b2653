import WkcBrowser.Wtf.StringImpl

/-! WebCore's `TextResourceDecoder`: how the encoding of a resource is found while its bytes arrive, and
what is given to the text codec. -/

namespace WkcBrowser.Loader

open Wtf

abbrev EncodingName := List Byte

/-- The encodings and codecs of the platform, and its encoding detectors. -/
structure TextEncodings (C : Type) where
  /-- `atomicCanonicalTextEncodingName` of a name that is not empty. -/
  canonicalName : List Byte → Option EncodingName
  isJapanese : Option EncodingName → Bool
  newTextCodec : Option EncodingName → C
  /-- The codec, the text, and whether there was an error, for bytes, `flush` and `stopOnError`. -/
  decode : C → List Byte → Bool → Bool → C × Text × Bool
  /-- The name of the encoding that `KanjiCode::judge` finds. -/
  judge : List Byte → Option (List Byte)
  detectTextEncoding : List Byte → Option EncodingName → Option (Option EncodingName)

section
variable {C : Type} (encodings : TextEncodings C)

/-- `TextEncoding(const char*)`, which has no name when it is not valid. -/
def textEncoding (name : List Byte) : Option EncodingName :=
  let string := name.takeWhile (· ≠ 0)
  if string = [] then none else encodings.canonicalName string

def UTF16LittleEndianEncoding : Option EncodingName := textEncoding encodings (ascii "UTF-16LE")

def UTF16BigEndianEncoding : Option EncodingName := textEncoding encodings (ascii "UTF-16BE")

def UTF32LittleEndianEncoding : Option EncodingName := textEncoding encodings (ascii "UTF-32LE")

def UTF32BigEndianEncoding : Option EncodingName := textEncoding encodings (ascii "UTF-32BE")

def UTF8Encoding : Option EncodingName := textEncoding encodings (ascii "UTF-8")

def closestByteBasedEquivalent (encoding : Option EncodingName) : Option EncodingName :=
  if encoding = UTF16LittleEndianEncoding encodings || encoding = UTF16BigEndianEncoding encodings ||
      encoding = UTF32BigEndianEncoding encodings || encoding = UTF32LittleEndianEncoding encodings then
    UTF8Encoding encodings
  else encoding

end

inductive ContentType where
  | PlainText | HTML | XML | CSS
  deriving DecidableEq

inductive EncodingSource where
  | DefaultEncoding | AutoDetectedEncoding | EncodingFromXMLHeader | EncodingFromMetaTag
  | EncodingFromCSSCharset | EncodingFromHTTPHeader | UserChosenEncoding | EncodingFromParentFrame
  deriving DecidableEq

structure TextResourceDecoder (C : Type) where
  contentType : ContentType
  encoding : Option EncodingName
  codec : Option C := none
  source : EncodingSource := .DefaultEncoding
  hintEncoding : Option EncodingName := none
  buffer : List Byte := []
  checkedForBOM : Bool := false
  checkedForCSSCharset : Bool := false
  checkedForHeadCharset : Bool := false
  useLenientXMLDecoding : Bool := false
  sawError : Bool := false
  usesEncodingDetector : Bool := false

/-! What is looked for in the bytes. -/

/-- A letter as a small one. -/
def toLowerByte (c : Byte) : Byte := if 0x41 ≤ c && c ≤ 0x5a then c + 0x20 else c

def findBytes (target subject : List Byte) : Option Nat :=
  subject.tails.findIdx? (target.isPrefixOf ·)

def isSpaceOrControl (c : Byte) : Bool := c ≤ 0x20

def isQuote (c : Byte) : Bool := c = 0x22 || c = 0x27

/-- The text of the encoding in an XML declaration. -/
def findXMLEncoding (str : List Byte) : Option (List Byte) :=
  match findBytes (ascii "encoding") str with
  | none => none
  | some pos =>
    match (str.drop (pos + 8)).dropWhile isSpaceOrControl with
    | [] => none
    | equals :: rest =>
      if equals ≠ 0x3d then none
      else
        match rest.dropWhile isSpaceOrControl with
        | [] => none
        | quoteMark :: rest =>
          if !isQuote quoteMark then none
          else if quoteMark ∈ rest then some (rest.takeWhile (· ≠ quoteMark)) else none

/-- What is found at the start of a style sheet: nothing that is over, no rule or its encoding. -/
inductive CSSCharset where
  | incomplete
  | absent
  | found (encodingName : List Byte)

/-- The name that is found includes the quotation mark behind it. -/
def findCSSCharset (buffer : List Byte) : CSSCharset :=
  if (ascii "@charset").isPrefixOf buffer then
    match (buffer.drop 8).dropWhile (fun c => c = 0x09 || c = 0x20) with
    | [] => .incomplete
    | quotationMark :: rest =>
      if isQuote quotationMark then
        match rest.dropWhile (· ≠ quotationMark) with
        | [] => .incomplete
        | mark :: afterName =>
          match afterName.dropWhile (fun c => c = 0x09 || c = 0x20) with
          | [] => .incomplete
          | c :: _ =>
            if c = 0x3b then .found (rest.takeWhile (· ≠ quotationMark) ++ [mark]) else .absent
      else .absent
  else .absent

/-- What follows a comment that is not `<!-->`. -/
def skipCommentText : List Byte → List Byte
  | c :: c1 :: c2 :: rest =>
    if c = 0x2d && c1 = 0x2d && c2 = 0x3e then rest
    else if c = 0x2d && c1 = 0x2d && c2 = 0x21 && rest.head? = some 0x3e then rest.tail
    else skipCommentText (c1 :: c2 :: rest)
  | text => text

def skipComment : List Byte → List Byte
  | [] => []
  | c :: rest => if c = 0x3e then rest else skipCommentText (c :: rest)

/-- The name of a tag, whether it has a namespace, and what follows, or none when the text is over. -/
def tagName (name : List Byte) (sawNamespace : Bool) (text : List Byte) :
    Option (List Byte × Bool × List Byte) :=
  match text with
  | [] => if name.length < 19 then none else some (name, sawNamespace, [])
  | c :: rest =>
    if name.length < 19 then
      if c = 0x3a then tagName [] true rest
      else if 0x61 ≤ toLowerByte c && toLowerByte c ≤ 0x7a || 0x30 ≤ c && c ≤ 0x39 then
        tagName (name ++ [toLowerByte c]) sawNamespace rest
      else some (name, sawNamespace, c :: rest)
    else some (name, sawNamespace, c :: rest)

/-- What follows an opening tag, of which one may be in a quoted value. -/
def afterTag : Option Byte → List Byte → Option (List Byte)
  | _, [] => none
  | some quoteMark, c :: rest =>
    if c = quoteMark then afterTag none rest else afterTag (some quoteMark) rest
  | none, c :: rest =>
    if c = 0x3e then some rest
    else if isQuote c then afterTag (some c) rest
    else afterTag none rest

def endsCharset (c : Byte) : Bool := c ∈ ascii " \"';>"

section
variable {C : Type} (encodings : TextEncodings C)

/-- The first encoding that a `meta` tag names, in some rounds. -/
def metaEncoding : Nat → List Byte → Option EncodingName
  | 0, _ => none
  | rounds + 1, text =>
    match findBytes (ascii "charset") (text.map toLowerByte) with
    | none => none
    | some charsetPos =>
      match (text.drop (charsetPos + 7)).dropWhile isSpaceOrControl with
      | [] => none
      | c :: rest =>
        if c ≠ 0x3d then metaEncoding rounds rest
        else
          let value := rest.dropWhile fun c => isSpaceOrControl c || c = 0x3d || isQuote c
          if value = [] then none
          else
            match textEncoding encodings (value.takeWhile (!endsCharset ·)) with
            | some encoding => some encoding
            | none =>
              match value.dropWhile (!endsCharset ·) with
              | [] => none
              | c :: rest => if c = 0x2f || c = 0x3e then none else metaEncoding rounds rest

inductive HeadCharset where
  | incomplete
  | found (encoding : EncodingName)
  | beyond

def bytesToCheckUnconditionally : Nat := 1024

def titleTag : List Byte := ascii "title"

def scriptTag : List Byte := ascii "script"

def noscriptTag : List Byte := ascii "noscript"

def metaTag : List Byte := ascii "meta"

def allowedInHead (tag : List Byte) (isEnd : Bool) : Bool :=
  tag = scriptTag || tag = noscriptTag || tag = ascii "style" || tag = ascii "link" || tag = metaTag ||
    tag = ascii "object" || tag = titleTag || tag = ascii "base" ||
    !isEnd && (tag = ascii "html" || tag = ascii "head") ||
    !(0x61 ≤ tag.headD 0 && tag.headD 0 ≤ 0x7a)

/-- The loop over the head of a document of some size, in some steps. -/
def scanHead (size : Nat) : Nat → Bool → Option (List Byte) → List Byte → HeadCharset
  | 0, _, _, _ => .incomplete
  | steps + 1, inHeadSection, enclosingTagName, c :: c1 :: c2 :: c3 :: more =>
    if c ≠ 0x3c then scanHead size steps inHeadSection enclosingTagName (c1 :: c2 :: c3 :: more)
    else if c1 = 0x21 && c2 = 0x2d && c3 = 0x2d then
      let rest := skipComment more
      if bytesToCheckUnconditionally ≤ size - rest.length && !inHeadSection then .beyond
      else scanHead size steps inHeadSection enclosingTagName rest
    else
      let isEnd := decide (c1 = 0x2f)
      match tagName [] false (if isEnd then c2 :: c3 :: more else c1 :: c2 :: c3 :: more) with
      | none => .incomplete
      | some (tag, sawNamespace, tagContent) =>
        let enclosing := match enclosingTagName with
          | some name => if isEnd && tag = name then none else some name
          | none => if tag = titleTag || tag = scriptTag || tag = noscriptTag then some tag else none
        match if isEnd then some tagContent else afterTag none tagContent with
        | none => .incomplete
        | some rest =>
          if !isEnd && tag = metaTag && !sawNamespace then
            let str := tagContent.take (tagContent.length - rest.length)
            match metaEncoding encodings (str.length + 1) str with
            | some encoding => .found encoding
            | none => scanHead size steps inHeadSection enclosing rest
          else
            let inHead := inHeadSection && (enclosing.isSome || allowedInHead tag isEnd)
            if bytesToCheckUnconditionally ≤ size - rest.length && !inHead then .beyond
            else scanHead size steps inHead enclosing rest
  | _, _, _, _ => .incomplete

end

namespace TextResourceDecoder

variable {C : Type} (encodings : TextEncodings C)

/-- A decoder for a content type, with the default encoding that is specified. -/
def create (contentType : ContentType) (specifiedDefaultEncoding : Option EncodingName)
    (usesEncodingDetector : Bool) : TextResourceDecoder C where
  contentType
  encoding :=
    if contentType = .XML then UTF8Encoding encodings
    else if specifiedDefaultEncoding.isNone then textEncoding encodings (ascii "Latin-1")
    else specifiedDefaultEncoding
  usesEncodingDetector

def setEncoding (s : TextResourceDecoder C) (encoding : Option EncodingName)
    (source : EncodingSource) : TextResourceDecoder C :=
  match encoding with
  | none => s
  | some name =>
    { s with
      encoding :=
        if source = .EncodingFromMetaTag && name.map toLowerByte = ascii "x-user-defined" then
          textEncoding encodings (ascii "windows-1252")
        else if source = .EncodingFromMetaTag || source = .EncodingFromXMLHeader ||
            source = .EncodingFromCSSCharset then
          closestByteBasedEquivalent encodings encoding
        else encoding
      codec := none
      source }

/-- The source of the encoding lets the content decide. -/
def isOpen (s : TextResourceDecoder C) : Bool :=
  s.source = .DefaultEncoding || s.source = .EncodingFromParentFrame

/-- A byte that is missing is read as null. -/
def checkForBOM (s : TextResourceDecoder C) (data : List Byte) : TextResourceDecoder C × Nat :=
  let c1 := (s.buffer ++ data).getD 0 0
  let c2 := (s.buffer ++ data).getD 1 0
  let c3 := (s.buffer ++ data).getD 2 0
  let c4 := (data.drop (3 - s.buffer.length)).headD 0
  let (found, lengthOfBOM) :=
    if c1 = 0xff && c2 = 0xfe then
      if c3 ≠ 0 || c4 ≠ 0 then
        (s.setEncoding encodings (UTF16LittleEndianEncoding encodings) .AutoDetectedEncoding, 2)
      else (s.setEncoding encodings (UTF32LittleEndianEncoding encodings) .AutoDetectedEncoding, 4)
    else if c1 = 0xef && c2 = 0xbb && c3 = 0xbf then
      (s.setEncoding encodings (UTF8Encoding encodings) .AutoDetectedEncoding, 3)
    else if c1 = 0xfe && c2 = 0xff then
      (s.setEncoding encodings (UTF16BigEndianEncoding encodings) .AutoDetectedEncoding, 2)
    else if c1 = 0 && c2 = 0 && c3 = 0xfe && c4 = 0xff then
      (s.setEncoding encodings (UTF32BigEndianEncoding encodings) .AutoDetectedEncoding, 4)
    else (s, 0)
  if lengthOfBOM ≠ 0 || 4 ≤ s.buffer.length + data.length then
    ({ found with checkedForBOM := true }, lengthOfBOM)
  else (found, lengthOfBOM)

/-- The decoder, whether the data is in its buffer, and whether it may go on. -/
structure Checked (C : Type) where
  decoder : TextResourceDecoder C
  movedDataToBuffer : Bool
  goesOn : Bool

def checkForCSSCharset (s : TextResourceDecoder C) (data : List Byte) : Checked C :=
  if !s.isOpen then ⟨{ s with checkedForCSSCharset := true }, false, true⟩
  else
    let moved := { s with buffer := s.buffer ++ data }
    if moved.buffer.length > 8 then
      match findCSSCharset moved.buffer with
      | .incomplete => ⟨moved, true, false⟩
      | .absent => ⟨{ moved with checkedForCSSCharset := true }, true, true⟩
      | .found encodingName =>
        let set := moved.setEncoding encodings (textEncoding encodings encodingName)
          .EncodingFromCSSCharset
        ⟨{ set with checkedForCSSCharset := true }, true, true⟩
    else ⟨moved, true, false⟩

/-- The part of `checkForHeadCharset` after the XML declaration. -/
def checkHead (s : TextResourceDecoder C) : Checked C :=
  if s.contentType = .XML then ⟨s, true, true⟩
  else
    match scanHead encodings s.buffer.length (s.buffer.length + 1) true none s.buffer with
    | .incomplete => ⟨s, true, false⟩
    | .found encoding => ⟨s.setEncoding encodings (some encoding) .EncodingFromMetaTag, true, true⟩
    | .beyond => ⟨{ s with checkedForHeadCharset := true }, true, true⟩

def checkForHeadCharset (s : TextResourceDecoder C) (data : List Byte) : Checked C :=
  if !s.isOpen then ⟨{ s with checkedForHeadCharset := true }, false, true⟩
  else
    let moved := { s with buffer := s.buffer ++ data }
    let ptr := moved.buffer
    if ptr.length < 8 then ⟨moved, true, false⟩
    else if (ascii "<?xml").isPrefixOf ptr then
      if 0x3e ∉ ptr then ⟨moved, true, false⟩
      else
        match findXMLEncoding (ptr.takeWhile (· ≠ 0x3e)) with
        | none => moved.checkHead encodings
        | some encodingName =>
          (moved.setEncoding encodings (textEncoding encodings encodingName)
            .EncodingFromXMLHeader).checkHead encodings
    else if [0x3c, 0, 0x3f, 0, 0x78, 0].isPrefixOf ptr then
      ⟨moved.setEncoding encodings (UTF16LittleEndianEncoding encodings) .AutoDetectedEncoding,
        true, true⟩
    else if [0, 0x3c, 0, 0x3f, 0, 0x78].isPrefixOf ptr then
      ⟨moved.setEncoding encodings (UTF16BigEndianEncoding encodings) .AutoDetectedEncoding,
        true, true⟩
    else if [0x3c, 0, 0, 0, 0x3f, 0, 0, 0].isPrefixOf ptr then
      ⟨moved.setEncoding encodings (UTF32LittleEndianEncoding encodings) .AutoDetectedEncoding,
        true, true⟩
    else if [0, 0, 0, 0x3c, 0, 0, 0, 0x3f].isPrefixOf ptr then
      ⟨moved.setEncoding encodings (UTF32BigEndianEncoding encodings) .AutoDetectedEncoding,
        true, true⟩
    else moved.checkHead encodings

def shouldAutoDetect (s : TextResourceDecoder C) : Bool :=
  s.usesEncodingDetector &&
    (s.source = .DefaultEncoding || s.source = .EncodingFromParentFrame && s.hintEncoding.isSome)

def detect (s : TextResourceDecoder C) (data : List Byte) : TextResourceDecoder C :=
  match encodings.detectTextEncoding data s.hintEncoding with
  | some detectedEncoding => s.setEncoding encodings detectedEncoding .AutoDetectedEncoding
  | none => s

def autoDetect (s : TextResourceDecoder C) (data : List Byte) : TextResourceDecoder C :=
  if s.shouldAutoDetect then
    if encodings.isJapanese s.encoding then
      match encodings.judge data with
      | some name => s.setEncoding encodings (textEncoding encodings name) .AutoDetectedEncoding
      | none => s
    else s.detect encodings data
  else s

/-- Bytes for the codec, which starts behind a part of them. -/
structure Handed where
  bytes : List Byte
  offset : Nat
  stopOnError : Bool

/-- The checks for a charset in the content. -/
def checkForCharset (s : TextResourceDecoder C) (data : List Byte) : Checked C :=
  let css : Checked C :=
    if s.contentType = .CSS && !s.checkedForCSSCharset then s.checkForCSSCharset encodings data
    else ⟨s, false, true⟩
  if !css.goesOn then css
  else if (css.decoder.contentType = .HTML || css.decoder.contentType = .XML) &&
      !css.decoder.checkedForHeadCharset then
    css.decoder.checkForHeadCharset encodings data
  else css

/-- What `decode` comes to before the codec is called, and what it is called with. -/
def prepare (s : TextResourceDecoder C) (data : List Byte) :
    TextResourceDecoder C × Option Handed :=
  let (marked, lengthOfBOM) := if s.checkedForBOM then (s, 0) else s.checkForBOM encodings data
  let checked := marked.checkForCharset encodings data
  if !checked.goesOn then (checked.decoder, none)
  else
    let detected := checked.decoder.autoDetect encodings data
    if detected.buffer = [] then
      (detected, some ⟨data, lengthOfBOM, detected.contentType = .XML⟩)
    else
      let whole := if checked.movedDataToBuffer then detected.buffer else detected.buffer ++ data
      ({ detected with buffer := [] }, some ⟨whole, lengthOfBOM,
        detected.contentType = .XML && !detected.useLenientXMLDecoding⟩)

/-- The codec is called with bytes. -/
def runCodec (s : TextResourceDecoder C) (bytes : List Byte) (flush stopOnError : Bool) :
    TextResourceDecoder C × Text :=
  let codec := s.codec.getD (encodings.newTextCodec s.encoding)
  let (used, result, sawError) := encodings.decode codec bytes flush stopOnError
  ({ s with codec := some used, sawError := s.sawError || sawError }, result)

def decode (s : TextResourceDecoder C) (data : List Byte) : TextResourceDecoder C × Text :=
  match s.prepare encodings data with
  | (prepared, none) => (prepared, [])
  | (prepared, some handed) =>
    prepared.runCodec encodings (handed.bytes.drop handed.offset) false handed.stopOnError

def flush (s : TextResourceDecoder C) : TextResourceDecoder C × Text :=
  let unchecked := !s.checkedForHeadCharset && (s.contentType = .HTML || s.contentType = .XML) ||
    !s.checkedForCSSCharset && s.contentType = .CSS
  let detected :=
    if s.buffer ≠ [] && s.shouldAutoDetect && unchecked then s.detect encodings s.buffer else s
  let (used, result) := detected.runCodec encodings detected.buffer true
    (detected.contentType = .XML && !detected.useLenientXMLDecoding)
  ({ used with buffer := [], codec := none, checkedForBOM := false }, result)

end TextResourceDecoder

end WkcBrowser.Loader
