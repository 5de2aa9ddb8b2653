import WkcBrowser.Lib.Bytes
import WkcBrowser.Mhtml.ChunkIndependence
import WkcBrowser.Mhtml.ParseInvariants

/-! The reader applied to what the serializer wrote. Each part is read back as it was, except that
its URL passes through `KURL` and that a charset in which `boundary=` occurs is taken for a boundary
parameter. -/

namespace WkcBrowser.Mhtml
open Wtf Lib

section
variable {parsedURL : Text → Text}

/-- The header of the message, which both forms begin with. -/
theorem parse_mimeVersion (more : List Byte) :
    parse parsedURL { rest := ascii "Mime-Version: 1.0\r\n" ++ more } =
      parse parsedURL { rest := more } := by
  have line : ascii "Mime-Version: 1.0\r\n" ++ more =
      ascii "Mime-Version" ++ 58 :: (ascii " 1.0" ++ crlf ++ more) := by
    rw [show ascii "Mime-Version: 1.0\r\n" = ascii "Mime-Version" ++ 58 :: (ascii " 1.0" ++ crlf) by
      decide, List.append_assoc, List.cons_append]
  have plain : OneLine (ascii " 1.0") := by decide
  rw [line, parse_field (by rfl) (by rfl) rfl (forall_mem_of_all rfl) plain, readHeaderField_mimeVersion]

/-- The single part form. -/
theorem parse_single {resource : ArchiveResource} (saved : SavedResource resource)
    (keeps : KeepsCharset resource) :
    ∃ final, parse parsedURL { rest := makeMessageHeader resource.mimeType false ++
        (partsText false [resource] ++ closingText false) } = some final ∧
      final.added = [readBack parsedURL resource] := by
  have text : makeMessageHeader resource.mimeType false ++
      (partsText false [resource] ++ closingText false) =
      ascii "Mime-Version: 1.0\r\n" ++ (makePartHeader resource ++ resource.data) := by
    simp [makeMessageHeader, partsText, partText, closingText]
  have header := parse_partHeader parsedURL saved keeps
    (s := { rest := makePartHeader resource ++ resource.data }) rfl rfl rfl rfl rfl
  have content := parse_content_end parsedURL _ (s := {
    rest := resource.data, status := .readContent, headerStatus := .headerEnd
    type := resource.mimeType, location := resource.url, charset := resource.textEncoding })
    (Nat.le_refl _) rfl rfl
  rw [saved.kept rfl rfl] at content
  have added := finishResource_single parsedURL (s := {
    rest := [], status := .addResource, headerStatus := .headerEnd, rawData := resource.data
    type := resource.mimeType, location := resource.url, charset := resource.textEncoding })
    rfl saved.content saved.typed
  rw [text, parse_mimeVersion]
  refine ⟨_, header.trans (content.trans (parse_addResource_last rfl rfl ?_)), ?_⟩
  · rw [List.nil_append, added]
    rfl
  · rw [List.nil_append, added]
    rfl

/-- The folded parameters of the main header in the multipart form. -/
theorem messageHeader_lines {type : Text} (typed : type ≠ []) (more : List Byte) :
    makeMessageHeader type true ++ more =
      ascii "Mime-Version: 1.0\r\n" ++
      (ascii "Content-Type" ++ 58 :: (ascii " multipart/related; " ++ crlf ++
      (9 :: (ascii "boundary=\"" ++ boundaryString ++ ascii "\";" ++ crlf ++
      (9 :: (ascii "type=\"" ++ narrow type ++ ascii "\"" ++ crlf ++
      (crlf ++ (ascii "This is a multi-part message in MIME format.\r\n" ++ more)))))))) := by
  have typeName : ascii "Content-Type: multipart/related; \r\n" =
      ascii "Content-Type" ++ 58 :: (ascii " multipart/related; " ++ crlf) := by decide
  have boundaryName : ascii "\tboundary=\"" = 9 :: ascii "boundary=\"" := by decide
  have boundaryEnd : ascii "\";\r\n" = ascii "\";" ++ crlf := by decide
  have innerName : ascii "\ttype=\"" = 9 :: ascii "type=\"" := by decide
  have headerEnd : ascii "\"\r\n\r\n" = ascii "\"" ++ (crlf ++ crlf) := by decide
  have typed' : type.isEmpty = false := by simpa using typed
  simp only [makeMessageHeader, typeName, boundaryName, boundaryEnd, innerName, headerEnd, typed',
    Bool.not_false, if_true, List.append_assoc, List.cons_append]

/-- The boundary parameter of the main header. -/
theorem readHeaderField_boundary {s : ParseState} (unknown : s.boundary = none) :
    readHeaderField [] (widen (ascii "boundary=\"" ++ boundaryString ++ ascii "\";")) s =
      { s with boundary := some (widen boundaryString) } := by
  have found : (findIgnoringCase (widen (ascii "boundary="))
      (widen (ascii "boundary=\"" ++ boundaryString ++ ascii "\";"))).isSome = true := by decide
  have quoted : getQuotationString (widen (ascii "boundary=\"" ++ boundaryString ++ ascii "\";")) =
      some (widen boundaryString) := by decide
  rw [readHeaderField_folded]
  simp only [getHeaderInfo, List.isEmpty_nil, Bool.not_true, Bool.false_eq_true, if_false, found,
    if_true, unknown, Option.isNone_none, quoted]

variable (parsedURL) in
theorem parse_mainHeader {type : Text} (plain : PlainField type) (more : List Byte) :
    ∃ charset, parse parsedURL { rest := ascii "Content-Type" ++
        58 :: (ascii " multipart/related; " ++ crlf ++
        (9 :: (ascii "boundary=\"" ++ boundaryString ++ ascii "\";" ++ crlf ++
        (9 :: (ascii "type=\"" ++ narrow type ++ ascii "\"" ++ crlf ++ (crlf ++ more)))))) } =
      parse parsedURL
        { rest := more, status := .readContent, headerStatus := .headerEnd, isMultipart := true
          boundary := some (widen boundaryString), type := multipartRelated, charset } := by
  have related : stripWhiteAndSemicolon (widen (ascii " multipart/related; ")) = multipartRelated ∧
      (findIgnoringCase multipartRelated (widen (ascii " multipart/related; "))).isSome = true := by
    decide
  have typeLine : OneLine (ascii "type=\"" ++ narrow type ++ ascii "\"") :=
    OneLine.append (OneLine.append (by decide) plain.oneLine) (by decide)
  have typed := @parse_field parsedURL
    { rest := ascii "Content-Type" ++ 58 :: (ascii " multipart/related; " ++ crlf ++
      (9 :: (ascii "boundary=\"" ++ boundaryString ++ ascii "\";" ++ crlf ++
      (9 :: (ascii "type=\"" ++ narrow type ++ ascii "\"" ++ crlf ++ (crlf ++ more)))))) }
    _ _ _ rfl rfl rfl (forall_mem_of_all rfl) (by decide)
  rw [show widen (ascii "Content-Type") = contentType from rfl, readHeaderField_contentType,
    related.1, related.2] at typed
  obtain ⟨charset, parameter⟩ := readHeaderField_parameter
    (widen (ascii "type=\"" ++ narrow type ++ ascii "\""))
    (s := { rest := crlf ++ more, isMultipart := true, boundary := some (widen boundaryString)
            type := multipartRelated }) rfl
  refine ⟨charset, typed.trans ?_⟩
  refine (parse_folded (by rfl) (by rfl) rfl (by decide)).trans ?_
  rw [readHeaderField_boundary rfl]
  refine (parse_folded (by rfl) (by rfl) rfl typeLine).trans ?_
  refine (congrArg (parse parsedURL) parameter).trans ?_
  exact parse_blank rfl rfl rfl rfl

/-- What stands before the first part in the multipart form. -/
theorem parse_preamble {type : Text} (typed : type ≠ []) (plain : PlainField type)
    {more : List Byte} (some_ : more ≠ []) :
    parse parsedURL { rest := makeMessageHeader type true ++ (makeBoundary false ++ more) } =
      parse parsedURL
        { rest := more, isMultipart := true, boundary := some (widen boundaryString) } := by
  obtain ⟨charset, header⟩ := parse_mainHeader parsedURL plain
    (ascii "This is a multi-part message in MIME format.\r\n" ++ (makeBoundary false ++ more))
  rw [messageHeader_lines typed, parse_mimeVersion, header]
  have behind : boundaryLine false ++ crlf ++ more ≠ [] := by simp [crlf]
  have content := parse_content parsedURL behind _
    (ascii "This is a multi-part message in MIME format.\r\n") (Nat.le_refl _)
    (s := { rest := ascii "This is a multi-part message in MIME format.\r\n" ++ crlf ++
              (boundaryLine false ++ crlf ++ more)
            status := .readContent, headerStatus := .headerEnd, isMultipart := true
            boundary := some (widen boundaryString), type := multipartRelated, charset })
    rfl rfl rfl (by decide)
  have ignored : ∀ (s : ParseState) (line : List Byte), s.type = multipartRelated →
      keptLine s line = [] := by
    intro s line related
    have same : equalIgnoringCase multipartRelated (widen (ascii "multipart/related")) = true := by
      decide
    rw [keptLine, related, same]
    rfl
  rw [ignored _ _ rfl] at content
  have text : ascii "This is a multi-part message in MIME format.\r\n" ++
      (makeBoundary false ++ more) =
      ascii "This is a multi-part message in MIME format.\r\n" ++ crlf ++
        (boundaryLine false ++ crlf ++ more) := by
    rw [makeBoundary_line]
    simp only [List.append_assoc]
  rw [text]
  refine content.trans ((parse_boundary (by rfl) rfl (boundaryLine_oneLine false)
    (by exact boundaryLine_found false)).trans ?_)
  exact parse_addResource rfl some_

/-- The multipart form. -/
theorem parse_multipart {first : ArchiveResource} {later : List ArchiveResource}
    (saved : ∀ part ∈ first :: later, SavedResource part)
    (keeps : ∀ part ∈ first :: later, KeepsCharset part) :
    ∃ final, parse parsedURL { rest := makeMessageHeader first.mimeType true ++
        (partsText true (first :: later) ++ closingText true) } = some final ∧
      final.added = (first :: later).map (readBack parsedURL) := by
  have savedFirst := saved first List.mem_cons_self
  have text : makeMessageHeader first.mimeType true ++
      (partsText true (first :: later) ++ closingText true) =
      makeMessageHeader first.mimeType true ++ (makeBoundary false ++
        (makePartHeader first ++ (first.data ++ (partsText true later ++ closingText true)))) := by
    rw [Serializer.partsText_cons, partText_multipart]
    simp only [List.append_assoc]
  have some_ : makePartHeader first ++ (first.data ++
      (partsText true later ++ closingText true)) ≠ [] := by simp [savedFirst.content]
  obtain ⟨final, found, list⟩ := parse_parts parsedURL later saved keeps
    (s := { rest := makePartHeader first ++ (first.data ++ (partsText true later ++ closingText true))
            isMultipart := true, boundary := some (widen boundaryString) })
    ⟨rfl, rfl, rfl, rfl, rfl, rfl⟩ rfl
  refine ⟨final, ?_, list⟩
  rw [text, parse_preamble savedFirst.typed savedFirst.type some_, found]

variable (parsedURL) in
/-- The serialized archive, read back. -/
theorem parse_archiveText {archive : MHTMLWebArchive}
    (some_ : (caculateItems archive (0, [])).1 ≠ 0)
    (saved : ∀ part ∈ writtenParts archive, SavedResource part)
    (keeps : ∀ part ∈ writtenParts archive, KeepsCharset part) :
    ∃ final, parseRawDataRepresentation parsedURL (archiveText archive) = some final ∧
      final.added = (writtenParts archive).map (readBack parsedURL) := by
  obtain ⟨later, parts⟩ := writtenParts_start archive some_
  have length := writtenParts_length archive
  rw [parts] at saved keeps
  show ∃ final, parse parsedURL { rest := archiveText archive } = some final ∧ _
  rw [archiveText, parts]
  cases later with
  | nil =>
    have single : isMultipart archive = false := by
      rw [isMultipart, ← length, parts]
      rfl
    rw [single]
    exact parse_single (saved _ List.mem_cons_self) (keeps _ List.mem_cons_self)
  | cons second later =>
    have multi : isMultipart archive = true := by
      rw [isMultipart, ← length, parts]
      exact decide_eq_true (by simp)
    rw [multi]
    exact parse_multipart saved keeps

end

/-! ### A sequence of resources, saved and read -/

/-- The archive of a main resource and its subresources, without frames. -/
def sequenceArchive (main : ArchiveResource) (subresources : List ArchiveResource) :
    MHTMLWebArchive :=
  .mk main subresources []

theorem caculateResources_length (resources : List ArchiveResource) (items : Nat)
    (seen : List Text) : (resources.foldl caculateResource (items, seen)).1 =
      items + (newResources seen resources).length := by
  induction resources generalizing items seen with
  | nil => rfl
  | cons resource rest ih =>
    rw [List.foldl_cons, caculateResource, newResources]
    by_cases test : (resource.data.isEmpty || decide (resource.url ∈ seen)) = true
    · have old : (!resource.data.isEmpty && !decide (resource.url ∈ seen)) = false := by
        rw [← Bool.not_or, test]
        rfl
      rw [if_pos test, old, if_neg (by simp), ih]
    · have new : (!resource.data.isEmpty && !decide (resource.url ∈ seen)) = true := by
        rw [← Bool.not_or, Bool.eq_false_of_not_eq_true test]
        rfl
      rw [if_neg test, new, if_pos rfl, ih, List.length_cons]
      omega

theorem sequenceArchive_items {main : ArchiveResource} {subresources : List ArchiveResource}
    (content : main.data ≠ []) :
    (caculateItems (sequenceArchive main subresources) (0, [])).1 =
      (newResources [] (main :: subresources)).length := by
  have test : (main.data.isEmpty || decide (main.url ∈ ([] : List Text))) = false := by
    simpa using content
  simp only [sequenceArchive, caculateItems, test, Bool.false_eq_true, if_false, caculateFrames,
    caculateResources_length, newResources, List.length_cons]
  omega

/-- Every resource of the sequence is written once, the later ones with a known URL left out. -/
theorem sequenceArchive_parts {main : ArchiveResource} (subresources : List ArchiveResource)
    (content : main.data ≠ []) :
    writtenParts (sequenceArchive main subresources) = newResources [] (main :: subresources) := by
  have resources : (sequenceArchive main subresources).resources = main :: subresources := by
    simp [sequenceArchive, MHTMLWebArchive.resources, frameResources]
  rw [writtenParts, sequenceArchive_items content, resources, List.take_length]

theorem contentSerializeStart_state (isSupportedImageMIMEType : Text → Bool)
    (archive : MHTMLWebArchive) :
    (contentSerializeStart isSupportedImageMIMEType archive).2 = startState archive := by
  unfold contentSerializeStart
  dsimp only
  split_ifs <;> rfl

/-- One large enough buffer takes the whole archive, and reading its bytes yields the sequence that
was written. -/
def RoundTrips (isSupportedImageMIMEType : Text → Bool) (parsedURL : Text → Text)
    (main : ArchiveResource) (subresources : List ArchiveResource) : Prop :=
  ∃ enough, ∀ length, enough ≤ length →
    (progress (sequenceArchive main subresources) length
      (contentSerializeStart isSupportedImageMIMEType
        (sequenceArchive main subresources)).2).2.status = .stateEnd ∧
    ∃ final, parseRawDataRepresentation parsedURL
      (progress (sequenceArchive main subresources) length
        (contentSerializeStart isSupportedImageMIMEType
          (sequenceArchive main subresources)).2).1 = some final ∧
      final.added = newResources [] (main :: subresources)

section
variable {isSupportedImageMIMEType : Text → Bool} {parsedURL : Text → Text}
  {main : ArchiveResource} {subresources : List ArchiveResource}

theorem newResources_subset (seen : List Text) (resources : List ArchiveResource) :
    ∀ part ∈ newResources seen resources, part ∈ resources := by
  induction resources generalizing seen with
  | nil => simp [newResources]
  | cons resource rest ih =>
    intro part member
    unfold newResources at member
    split at member
    · exact List.mem_cons_of_mem _ (ih seen part member)
    · rcases List.mem_cons.mp member with rfl | later
      · exact List.mem_cons_self
      · exact List.mem_cons_of_mem _ (ih _ part later)

variable (isSupportedImageMIMEType) in
theorem sequenceArchive_progress (saved : ∀ part ∈ main :: subresources, SavedResource part)
    {length : Nat}
    (large : (archiveText (sequenceArchive main subresources)).length < length) :
    (progress (sequenceArchive main subresources) length
      (contentSerializeStart isSupportedImageMIMEType
        (sequenceArchive main subresources)).2).2.status = .stateEnd ∧
    (progress (sequenceArchive main subresources) length
      (contentSerializeStart isSupportedImageMIMEType
        (sequenceArchive main subresources)).2).1 =
      archiveText (sequenceArchive main subresources) := by
  have content := (saved main List.mem_cons_self).content
  have some_ : (caculateItems (sequenceArchive main subresources) (0, [])).1 ≠ 0 := by
    rw [sequenceArchive_items content, newResources, if_neg (by simpa using content)]
    simp
  rw [contentSerializeStart_state]
  rcases progress_large some_ large with ⟨ended, bytes, -⟩ | ⟨-, part, member, noUrl⟩
  · exact ⟨ended, bytes⟩
  · rw [sequenceArchive_parts subresources content] at member
    exact absurd noUrl (saved part (newResources_subset _ _ part member)).located

theorem roundTrips_of_kept (saved : ∀ part ∈ main :: subresources, SavedResource part)
    (kept : ∀ part ∈ newResources [] (main :: subresources),
      KeepsCharset part ∧ parsedURL part.url = part.url) :
    RoundTrips isSupportedImageMIMEType parsedURL main subresources := by
  have content := (saved main List.mem_cons_self).content
  have some_ : (caculateItems (sequenceArchive main subresources) (0, [])).1 ≠ 0 := by
    rw [sequenceArchive_items content, newResources, if_neg (by simpa using content)]
    simp
  have parts := sequenceArchive_parts subresources content
  obtain ⟨final, found, list⟩ := parse_archiveText parsedURL some_
    (fun part member => saved part (newResources_subset _ _ part (parts ▸ member)))
    (fun part member => (kept part (parts ▸ member)).1)
  refine ⟨(archiveText (sequenceArchive main subresources)).length + 1, fun length large => ?_⟩
  obtain ⟨ended, bytes⟩ := sequenceArchive_progress
    isSupportedImageMIMEType saved large
  refine ⟨ended, final, by rw [bytes, found], ?_⟩
  rw [list, parts]
  calc (newResources [] (main :: subresources)).map (readBack parsedURL)
      = (newResources [] (main :: subresources)).map id := by
        apply List.map_congr_left
        intro part member
        rw [readBack, (kept part member).2]
        rfl
    _ = newResources [] (main :: subresources) := List.map_id _

theorem kept_of_roundTrips (saved : ∀ part ∈ main :: subresources, SavedResource part)
    (roundTrips : RoundTrips isSupportedImageMIMEType parsedURL main subresources) :
    ∀ part ∈ newResources [] (main :: subresources),
      KeepsCharset part ∧ parsedURL part.url = part.url := by
  have content := (saved main List.mem_cons_self).content
  have some_ : (caculateItems (sequenceArchive main subresources) (0, [])).1 ≠ 0 := by
    rw [sequenceArchive_items content, newResources, if_neg (by simpa using content)]
    simp
  have parts := sequenceArchive_parts subresources content
  obtain ⟨enough, every⟩ := roundTrips
  obtain ⟨-, final, found, list⟩ := every
    (max enough ((archiveText (sequenceArchive main subresources)).length + 1)) (Nat.le_max_left _ _)
  rw [(sequenceArchive_progress isSupportedImageMIMEType saved
    (by omega)).2] at found
  have keeps : ∀ part ∈ newResources [] (main :: subresources), KeepsCharset part :=
    list ▸ keepsCharset_of_parsed found
  obtain ⟨final', found', list'⟩ := parse_archiveText parsedURL some_
    (fun part member => saved part (newResources_subset _ _ part (parts ▸ member)))
    (fun part member => keeps part (parts ▸ member))
  obtain rfl := Option.some.inj (found.symm.trans found')
  rw [list, parts] at list'
  intro part member
  refine ⟨keeps part member, ?_⟩
  have same := list'.symm.trans (List.map_id _).symm
  exact congrArg ArchiveResource.url (List.map_inj_left.mp same part member)

/-- Saving and reading is the identity on the written sequence exactly when no charset contains
`boundary=` and `KURL` leaves every URL as it is. -/
theorem roundTrips_iff (saved : ∀ part ∈ main :: subresources, SavedResource part) :
    RoundTrips isSupportedImageMIMEType parsedURL main subresources ↔
      ∀ part ∈ newResources [] (main :: subresources),
        KeepsCharset part ∧ parsedURL part.url = part.url :=
  ⟨kept_of_roundTrips saved, roundTrips_of_kept saved⟩

end

/-- A page whose charset label ends in the name of another parameter. -/
def pageWithCharset : ArchiveResource :=
  ⟨widen (ascii "http://a/"), widen (ascii "text/html"), widen (ascii "x-boundary=8"), ascii "<p>"⟩

/-- The style sheet of a page. -/
def styleSheet : ArchiveResource :=
  ⟨widen (ascii "http://a/s"), widen (ascii "text/css"), [], ascii "p\r\n--=\n"⟩

def savedPage : ArchiveResource :=
  ⟨widen (ascii "http://a/"), widen (ascii "text/html"), widen (ascii "utf-8"), ascii "<p>\r"⟩

theorem saved_pageWithCharset : SavedResource pageWithCharset := by
  constructor <;> first | decide | (constructor <;> first | exact forall_mem_of_all rfl | decide)

theorem saved_savedPage : SavedResource savedPage := by
  constructor <;> first | decide | (constructor <;> first | exact forall_mem_of_all rfl | decide)

theorem saved_styleSheet : SavedResource styleSheet := by
  constructor <;> first | decide | (constructor <;> first | exact forall_mem_of_all rfl | decide)

theorem roundTrips_savedPage : RoundTrips (fun _ => false) id savedPage [styleSheet] := by
  have saved : ∀ part ∈ [savedPage, styleSheet], SavedResource part := by
    simp [saved_savedPage, saved_styleSheet]
  refine (roundTrips_iff saved).mpr fun part member => ⟨?_, rfl⟩
  have one := newResources_subset _ _ part member
  simp only [List.mem_cons, List.not_mem_nil, or_false] at one
  rcases one with rfl | rfl <;> (unfold KeepsCharset; decide)

/-- The charset of that page is lost. -/
theorem not_roundTrips_pageWithCharset : SavedResource pageWithCharset ∧
    ¬ RoundTrips (fun _ => false) id pageWithCharset [] := by
  have saved : ∀ part ∈ [pageWithCharset], SavedResource part := by simp [saved_pageWithCharset]
  refine ⟨saved_pageWithCharset, fun roundTrips => ?_⟩
  have kept := (kept_of_roundTrips saved roundTrips pageWithCharset (by decide)).1
  unfold KeepsCharset at kept
  exact absurd kept (by decide)

end WkcBrowser.Mhtml
