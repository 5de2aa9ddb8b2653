import WkcBrowser.Mhtml.ParseContent
import WkcBrowser.Mhtml.SerializeResource

/-! Reading one part as the serializer writes it: its header fields and, in the multipart form, its
content with the boundary behind it. -/

namespace WkcBrowser.Mhtml
open Wtf Lib

def contentType : Text := widen (ascii "Content-Type")
def contentLocation : Text := widen (ascii "Content-Location")
def multipartRelated : Text := widen (ascii "multipart/related")

/-- What the fields of a resource have to be for a part to be read back: its data and header fields
are there, the fields are plain, it is no multipart message itself, and no line of its data is taken
for a boundary. -/
structure SavedResource (resource : ArchiveResource) : Prop where
  content : resource.data ≠ []
  located : resource.url ≠ []
  typed : resource.mimeType ≠ []
  notRelated : (findIgnoringCase multipartRelated resource.mimeType).isSome = false
  url : PlainField resource.url
  type : PlainField resource.mimeType
  charset : PlainField resource.textEncoding
  lines : NoBoundaryLine resource.data

/-- The charset of the resource is not taken for a boundary. -/
def KeepsCharset (resource : ArchiveResource) : Prop :=
  (findIgnoringCase (widen (ascii "boundary=")) resource.textEncoding).isSome = false

/-! ### Header fields -/

theorem infix_of_separator {α : Type} {p a b : List α} {c : α} (apart : c ∉ p)
    (occurs : p <:+: a ++ c :: b) : p <:+: a ∨ p <:+: b := by
  induction a with
  | nil =>
    rw [List.nil_append, List.infix_cons_iff] at occurs
    rcases occurs with begins | later
    · cases p with
      | nil => exact .inl List.nil_infix
      | cons d rest =>
        obtain rfl := (List.cons_prefix_cons.mp begins).1
        exact absurd List.mem_cons_self apart
    · exact .inr later
  | cons d rest ih =>
    rw [List.cons_append, List.infix_cons_iff] at occurs
    rcases occurs with begins | later
    · left
      have line : d :: rest ++ [c] <+: d :: (rest ++ c :: b) := ⟨b, by simp⟩
      rcases List.prefix_or_prefix_of_prefix begins line with shorter | longer
      · rcases List.prefix_concat_iff.mp shorter with same | inside
        · exact absurd (by simp [same]) apart
        · exact inside.isInfix
      · exact absurd (longer.subset (by simp)) apart
    · exact (ih later).imp (fun inside => List.infix_cons inside) id

/-- A pattern without the separator is found on one of its sides if it is found at all. -/
theorem findIgnoringCase_separator {pattern a b : Text} {c : UChar}
    (apart : toASCIILower c ∉ pattern.map toASCIILower)
    (front : (findIgnoringCase pattern a).isSome = false)
    (back : (findIgnoringCase pattern b).isSome = false) :
    (findIgnoringCase pattern (a ++ c :: b)).isSome = false := by
  rw [← Bool.not_eq_true, findIgnoringCase_isSome] at front back ⊢
  intro occurs
  rw [List.map_append, List.map_cons] at occurs
  exact (infix_of_separator apart occurs).elim front back

theorem readHeaderField_contentType (sValue : Text) (s : ParseState) :
    readHeaderField contentType sValue s =
      { s with
        type := stripWhiteAndSemicolon sValue
        isMultipart := s.isMultipart || (findIgnoringCase multipartRelated sValue).isSome } := by
  have named : (!contentType.isEmpty) = true := by decide
  have here : equalIgnoringCase (stripWhiteSpace contentType) (widen (ascii "Content-Type")) = true := by
    decide
  simp only [readHeaderField, getHeaderInfo, named, here, if_true, Bool.true_and]
  cases related : (findIgnoringCase (widen (ascii "multipart/related")) sValue).isSome <;>
    simp [multipartRelated, related]

theorem readHeaderField_contentLocation (sValue : Text) (s : ParseState) :
    readHeaderField contentLocation sValue s = { s with location := stripWhiteSpace sValue } := by
  have named : (!contentLocation.isEmpty) = true := by decide
  have other : equalIgnoringCase (stripWhiteSpace contentLocation)
      (widen (ascii "Content-Type")) = false := by decide
  have here : equalIgnoringCase (stripWhiteSpace contentLocation)
      (widen (ascii "Content-Location")) = true := by decide
  simp only [readHeaderField, getHeaderInfo, named, other, here, if_true, Bool.false_eq_true,
    if_false, Bool.false_and]

theorem readHeaderField_mimeVersion (sValue : Text) (s : ParseState) :
    readHeaderField (widen (ascii "Mime-Version")) sValue s = s := by
  have named : (!(widen (ascii "Mime-Version")).isEmpty) = true := by decide
  have notType : equalIgnoringCase (stripWhiteSpace (widen (ascii "Mime-Version")))
      (widen (ascii "Content-Type")) = false := by decide
  have notLocation : equalIgnoringCase (stripWhiteSpace (widen (ascii "Mime-Version")))
      (widen (ascii "Content-Location")) = false := by decide
  simp only [readHeaderField, getHeaderInfo, named, notType, notLocation, if_true,
    Bool.false_eq_true, if_false, Bool.false_and]

theorem readHeaderField_folded (sValue : Text) (s : ParseState) :
    readHeaderField [] sValue s = getHeaderInfo [] sValue s := by
  have none_ : equalIgnoringCase (stripWhiteSpace []) (widen (ascii "Content-Type")) = false := by
    decide
  simp only [readHeaderField, none_, Bool.false_and, Bool.false_eq_true, if_false]

/-- Once a boundary is known, a further parameter can only change the charset. -/
theorem readHeaderField_parameter (sValue : Text) {s : ParseState}
    (known : s.boundary.isSome = true) :
    ∃ charset, readHeaderField [] sValue s = { s with charset } := by
  have notNull : s.boundary.isNone = false := by
    cases boundary : s.boundary with
    | none => simp [boundary] at known
    | some text => rfl
  rw [readHeaderField_folded]
  unfold getHeaderInfo
  simp only [List.isEmpty_nil, Bool.not_true, Bool.false_eq_true, if_false, notNull]
  split
  · exact ⟨s.charset, rfl⟩
  · split
    · exact ⟨_, rfl⟩
    · exact ⟨s.charset, rfl⟩

theorem readHeaderField_charset {charset : Text} (plain : PlainField charset)
    (kept : (findIgnoringCase (widen (ascii "boundary=")) charset).isSome = false)
    (s : ParseState) :
    readHeaderField [] (widen (ascii "charset=") ++ 34 :: (charset ++ 34 :: [])) s =
      { s with charset } := by
  have noBoundary : (findIgnoringCase (widen (ascii "boundary="))
      (widen (ascii "charset=") ++ 34 :: (charset ++ 34 :: []))).isSome = false :=
    findIgnoringCase_separator (by decide) (by decide)
      (findIgnoringCase_separator (by decide) kept (by decide))
  have isCharset : (findIgnoringCase (widen (ascii "charset="))
      (widen (ascii "charset=") ++ 34 :: (charset ++ 34 :: []))).isSome = true := by
    rw [findIgnoringCase_isSome, List.map_append]
    exact (List.prefix_append _ _).isInfix
  rw [readHeaderField_folded]
  simp only [getHeaderInfo, List.isEmpty_nil, Bool.not_true, Bool.false_eq_true, if_false,
    noBoundary, isCharset, if_true,
    getQuotationString_quoted _ _ _ (show (34 : UChar) ∉ widen (ascii "charset=") by decide)
      plain.noQuote, Option.getD_some]

/-! ### The header of a part -/

/-- The line of the MIME type, with the semicolon if a charset follows. -/
def typeLine (resource : ArchiveResource) : List Byte :=
  32 :: (narrow resource.mimeType ++ if resource.textEncoding = [] then [] else [59])

/-- The folded line of the charset, if there is one. -/
def charsetLine (resource : ArchiveResource) (more : List Byte) : List Byte :=
  if resource.textEncoding = [] then more else
  9 :: ((ascii "charset=" ++ 34 :: (narrow resource.textEncoding ++ [34])) ++ crlf ++ more)

theorem makePartHeader_lines {resource : ArchiveResource} (located : resource.url ≠ [])
    (typed : resource.mimeType ≠ []) (more : List Byte) :
    makePartHeader resource ++ more =
      ascii "Content-Type" ++ 58 :: (typeLine resource ++ crlf ++
        charsetLine resource (ascii "Content-Location" ++
          58 :: ((32 :: narrow resource.url) ++ crlf ++ (crlf ++ more)))) := by
  have typeName : ascii "Content-Type: " = ascii "Content-Type" ++ [58, 32] := by decide
  have charsetName : ascii "\tcharset=\"" = 9 :: (ascii "charset=" ++ [34]) := by decide
  have locationName : ascii "Content-Location: " = ascii "Content-Location" ++ [58, 32] := by decide
  have lineEnd : ascii "\r\n" = crlf := by decide
  have semicolon : ascii ";\r\n" = 59 :: crlf := by decide
  have quote : ascii "\"" = [34] := by decide
  have typed' : resource.mimeType.isEmpty = false := by simpa using typed
  have located' : resource.url.isEmpty = false := by simpa using located
  unfold makePartHeader typeLine charsetLine
  rw [typeName, charsetName, locationName, lineEnd, semicolon, quote, typed', located']
  cases charset : resource.textEncoding with
  | nil => simp
  | cons c rest => simp

section
variable {parsedURL : Text → Text}

theorem parse_typeLine {resource : ArchiveResource} (saved : SavedResource resource)
    {s : ParseState} {more : List Byte} (status : s.status = .parseHeader)
    (header : s.headerStatus = .name)
    (rest : s.rest = ascii "Content-Type" ++ 58 :: (typeLine resource ++ crlf ++ more)) :
    parse parsedURL s = parse parsedURL { s with rest := more, type := resource.mimeType } := by
  have mimeType := widen_narrow saved.type.ascii
  have oneLine : OneLine (typeLine resource) := by
    apply OneLine.append (a := [32]) (by decide)
    apply OneLine.append saved.type.oneLine
    split <;> decide
  rw [parse_field status header rest (List.all_eq_true.mp rfl) oneLine]
  have value : widen (typeLine resource) =
      32 :: (resource.mimeType ++ if resource.textEncoding = [] then [] else [59]) := by
    rw [typeLine, widen, List.map_cons, List.map_append]
    split <;> exact congrArg (fun t => 32 :: (t ++ _)) mimeType
  have notRelated : (findIgnoringCase multipartRelated (widen (typeLine resource))).isSome = false := by
    rw [value]
    apply findIgnoringCase_separator (a := []) (by decide) (by decide)
    split
    · rw [List.append_nil]
      exact saved.notRelated
    · exact findIgnoringCase_separator (b := []) (by decide) saved.notRelated (by decide)
  have stripped : stripWhiteAndSemicolon (widen (typeLine resource)) = resource.mimeType := by
    rw [value]
    split
    · rw [List.append_nil, stripWhiteAndSemicolon_plain saved.type]
    · exact stripWhiteAndSemicolon_semicolon saved.typed saved.type.trimmed
  rw [show widen (ascii "Content-Type") = contentType from rfl, readHeaderField_contentType,
    notRelated, stripped, Bool.or_false]

theorem parse_charsetLine {resource : ArchiveResource} (saved : SavedResource resource)
    (keeps : KeepsCharset resource) {s : ParseState} {more : List Byte}
    (status : s.status = .parseHeader) (header : s.headerStatus = .name)
    (clear : s.charset = []) (rest : s.rest = charsetLine resource more) :
    parse parsedURL s =
      parse parsedURL { s with rest := more, charset := resource.textEncoding } := by
  have charset := widen_narrow saved.charset.ascii
  by_cases none_ : resource.textEncoding = []
  · rw [charsetLine, if_pos none_] at rest
    rw [none_, ← clear, ← rest]
  · rw [charsetLine, if_neg none_] at rest
    have oneLine : OneLine (ascii "charset=" ++ 34 :: (narrow resource.textEncoding ++ [34])) := by
      apply OneLine.append (by decide)
      apply OneLine.append (a := [34]) (by decide)
      exact saved.charset.oneLine.append (by decide)
    have value : widen (ascii "charset=" ++ 34 :: (narrow resource.textEncoding ++ [34])) =
        widen (ascii "charset=") ++ 34 :: (resource.textEncoding ++ 34 :: []) := by
      rw [widen, List.map_append, List.map_cons, List.map_append]
      exact congrArg (fun t => _ ++ 34 :: (t ++ [34])) charset
    rw [parse_folded status header rest oneLine, value, readHeaderField_charset saved.charset keeps]

theorem parse_locationLine {resource : ArchiveResource} (saved : SavedResource resource)
    {s : ParseState} {more : List Byte} (status : s.status = .parseHeader)
    (header : s.headerStatus = .name)
    (rest : s.rest =
      ascii "Content-Location" ++ 58 :: ((32 :: narrow resource.url) ++ crlf ++ more)) :
    parse parsedURL s = parse parsedURL { s with rest := more, location := resource.url } := by
  have location : widen (32 :: narrow resource.url) = 32 :: resource.url :=
    congrArg (List.cons 32) (widen_narrow saved.url.ascii)
  have oneLine : OneLine (32 :: narrow resource.url) :=
    OneLine.append (a := [32]) (by decide) saved.url.oneLine
  rw [parse_field status header rest (List.all_eq_true.mp rfl) oneLine,
    show widen (ascii "Content-Location") = contentLocation from rfl,
    readHeaderField_contentLocation, location, stripWhiteSpace_space, saved.url.trimmed]

variable (parsedURL) in
theorem parse_partHeader {resource : ArchiveResource} (saved : SavedResource resource)
    (keeps : KeepsCharset resource) {s : ParseState} {more : List Byte}
    (status : s.status = .parseHeader) (header : s.headerStatus = .name)
    (rest : s.rest = makePartHeader resource ++ more) (clear : s.charset = [])
    (known : (s.isMultipart && (s.boundary.getD []).isEmpty) = false) :
    parse parsedURL s = parse parsedURL
      { s with
        rest := more, status := .readContent, headerStatus := .headerEnd
        type := resource.mimeType, location := resource.url, charset := resource.textEncoding } := by
  rw [makePartHeader_lines saved.located saved.typed more] at rest
  refine (parse_typeLine saved status header rest).trans ?_
  refine (parse_charsetLine saved keeps (by exact status) (by exact header) (by exact clear)
    rfl).trans ?_
  refine (parse_locationLine saved (by exact status) (by exact header) rfl).trans ?_
  exact parse_blank (by exact status) (by exact header) rfl (by exact known)

/-- The line of a boundary, without the line ends around it. -/
def boundaryLine (last : Bool) : List Byte :=
  ascii "--" ++ boundaryString ++ (if last then ascii "--" else [])

theorem makeBoundary_line (last : Bool) :
    makeBoundary last = crlf ++ (boundaryLine last ++ crlf) := by
  cases last <;> decide

theorem boundaryLine_oneLine (last : Bool) : OneLine (boundaryLine last) := by
  cases last <;> decide

theorem boundaryLine_found (last : Bool) :
    (isEndBoundary (boundaryLine last ++ crlf) (widen boundaryString) ||
      isBoundary (boundaryLine last ++ crlf) (widen boundaryString)) = true := by
  cases last <;> decide

theorem SavedResource.kept {resource : ArchiveResource} (saved : SavedResource resource)
    {s : ParseState} (type : s.type = resource.mimeType) (location : s.location = resource.url)
    (line : List Byte) : keptLine s line = line := by
  have notRelated : equalIgnoringCase resource.mimeType (widen (ascii "multipart/related")) = false := by
    rw [← Bool.not_eq_true]
    intro same
    have found := (findIgnoringCase_isSome multipartRelated resource.mimeType).mpr
      (by rw [of_decide_eq_true same]; exact List.infix_rfl)
    rw [saved.notRelated] at found
    contradiction
  have located : resource.url.isEmpty = false := by simpa using saved.located
  simp only [keptLine, type, location, notRelated, located, Bool.or_self, Bool.false_eq_true,
    if_false]

/-- The content of a part and the boundary behind it. -/
theorem parse_partContent {resource : ArchiveResource} (saved : SavedResource resource)
    {s : ParseState} {more : List Byte} (last : Bool) (status : s.status = .readContent)
    (rest : s.rest = resource.data ++ (makeBoundary last ++ more))
    (boundary : s.boundary = some (widen boundaryString)) (type : s.type = resource.mimeType)
    (location : s.location = resource.url) (fresh : s.rawData = []) :
    parse parsedURL s = parse parsedURL
      { s with rest := more, status := .addResource, rawData := resource.data ++ crlf } := by
  rw [makeBoundary_line, List.append_assoc, ← List.append_assoc] at rest
  have known : s.boundary.getD [] = widen boundaryString := by rw [boundary]; rfl
  have some_ : boundaryLine last ++ crlf ++ more ≠ [] := by simp [crlf]
  have content := parse_content parsedURL some_ _ resource.data (Nat.le_refl _)
    status rest known saved.lines
  rw [saved.kept type location, fresh, List.nil_append] at content
  refine content.trans (parse_boundary (by exact status) rfl (boundaryLine_oneLine last) ?_)
  have found := boundaryLine_found last
  rw [← known] at found
  exact found

/-- What is read back of a part. -/
def readBack (parsedURL : Text → Text) (resource : ArchiveResource) : ArchiveResource :=
  { resource with url := parsedURL resource.url }

/-- Between two parts, at the first line of a header. -/
structure AtPart (s : ParseState) : Prop where
  status : s.status = .parseHeader
  header : s.headerStatus = .name
  multi : s.isMultipart = true
  boundary : s.boundary = some (widen boundaryString)
  fresh : s.rawData = []
  clear : s.charset = []

variable (parsedURL) in
/-- One part of the multipart form, up to where its resource is added. -/
theorem parse_part {resource : ArchiveResource} (saved : SavedResource resource)
    (keeps : KeepsCharset resource) {s : ParseState} {more : List Byte} (at_ : AtPart s)
    (last : Bool) (rest : s.rest = makePartHeader resource ++
      (resource.data ++ (makeBoundary last ++ more))) :
    parse parsedURL s = parse parsedURL
      { s with
        rest := more, status := .addResource, headerStatus := .headerEnd
        type := resource.mimeType, location := resource.url, charset := resource.textEncoding
        rawData := resource.data ++ crlf } := by
  have known : (s.isMultipart && (s.boundary.getD []).isEmpty) = false := by
    rw [at_.multi, at_.boundary]
    decide
  refine (parse_partHeader parsedURL saved keeps at_.status at_.header rest at_.clear known).trans ?_
  exact parse_partContent saved last rfl rfl (by exact at_.boundary) rfl rfl (by exact at_.fresh)

theorem partText_multipart (resource : ArchiveResource) : partText true resource =
    makeBoundary false ++ (makePartHeader resource ++ resource.data) :=
  rfl

variable (parsedURL) in
/-- All parts of the multipart form, from the header of the first one on. -/
theorem parse_parts (later : List ArchiveResource) {first : ArchiveResource}
    (saved : ∀ part ∈ first :: later, SavedResource part)
    (keeps : ∀ part ∈ first :: later, KeepsCharset part) {s : ParseState} (at_ : AtPart s)
    (rest : s.rest = makePartHeader first ++ (first.data ++
      (partsText true later ++ closingText true))) :
    ∃ final, parse parsedURL s = some final ∧
      final.added = s.added ++ (first :: later).map (readBack parsedURL) := by
  have savedFirst := saved first List.mem_cons_self
  induction later generalizing first s with
  | nil =>
    have read := parse_part parsedURL savedFirst (keeps first List.mem_cons_self)
      at_ true (rest.trans (by rw [List.append_nil]; rfl))
    have added := finishResource_multipart parsedURL
      (s := { s with
        rest := [], status := .addResource, headerStatus := .headerEnd
        type := first.mimeType, location := first.url, charset := first.textEncoding
        rawData := first.data ++ crlf }) at_.multi rfl savedFirst.content savedFirst.typed
    refine ⟨_, read.trans (parse_addResource_last rfl rfl ?_), ?_⟩
    · rw [added]
      rfl
    · rw [added]
      rfl
  | cons second later ih =>
    have rest' : s.rest = makePartHeader first ++ (first.data ++ (makeBoundary false ++
        (makePartHeader second ++ (second.data ++ (partsText true later ++ closingText true))))) := by
      rw [rest, Serializer.partsText_cons, partText_multipart]
      simp only [List.append_assoc]
    have read := parse_part parsedURL savedFirst (keeps first List.mem_cons_self)
      at_ false rest'
    have some_ : makePartHeader second ++ (second.data ++
        (partsText true later ++ closingText true)) ≠ [] := by
      have content := (saved second (by simp)).content
      simp [content]
    have added := finishResource_multipart parsedURL
      (s := { s with
        rest := makePartHeader second ++ (second.data ++ (partsText true later ++ closingText true))
        status := .addResource, headerStatus := .headerEnd
        type := first.mimeType, location := first.url, charset := first.textEncoding
        rawData := first.data ++ crlf }) at_.multi rfl savedFirst.content savedFirst.typed
    have next := read.trans (parse_addResource (by rfl) some_)
    rw [added] at next
    obtain ⟨final, found, list⟩ := ih (fun part member => saved part (List.mem_cons_of_mem _ member))
      (fun part member => keeps part (List.mem_cons_of_mem _ member))
      (s := { s with
        rest := makePartHeader second ++ (second.data ++ (partsText true later ++ closingText true))
        status := .parseHeader, headerStatus := .name
        type := [], location := [], charset := [], rawData := []
        mainResourceType := some (s.mainResourceType.getD first.mimeType)
        added := s.added ++ [readBack parsedURL first] })
      ⟨rfl, rfl, at_.multi, at_.boundary, rfl, rfl⟩ rfl (saved second (by simp))
    refine ⟨final, next.trans found, list.trans ?_⟩
    simp only [List.map_cons, List.append_assoc]
    rfl

end

end WkcBrowser.Mhtml
