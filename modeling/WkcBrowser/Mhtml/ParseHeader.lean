import WkcBrowser.Mhtml.ParseTurn

/-! Reading the header lines the serializer writes: the fields of a part, the folded parameters, and
the blank line that ends the header. -/

namespace WkcBrowser.Mhtml
open Wtf Lib

/-- The line end of the source's string literals. -/
def crlf : List Byte := [13, 10]

/-- No byte of a line end. -/
def OneLine (bytes : List Byte) : Prop := (13 : Byte) ∉ bytes ∧ (10 : Byte) ∉ bytes

instance (bytes : List Byte) : Decidable (OneLine bytes) := inferInstanceAs (Decidable (_ ∧ _))

theorem OneLine.append {a b : List Byte} (front : OneLine a) (back : OneLine b) :
    OneLine (a ++ b) := by
  simp only [OneLine, List.mem_append, not_or]
  exact ⟨⟨front.1, back.1⟩, front.2, back.2⟩

theorem calcLineLength_crlf {line : List Byte} (plain : OneLine line) (more : List Byte) :
    calcLineLength (line ++ crlf ++ more) = line.length + 2 := by
  induction line with
  | nil => simp [crlf, calcLineLength, isEndOfLine]
  | cons b rest ih =>
    simp only [OneLine, List.mem_cons, not_or] at plain
    have none_ := isEndOfLine_cons_other (rest ++ crlf ++ more) (Ne.symm plain.1.1)
      (Ne.symm plain.2.1)
    have later := ih ⟨plain.1.2, plain.2.2⟩
    simp only [List.cons_append, calcLineLength, none_, Nat.lt_irrefl, if_false, later,
      List.length_cons]

theorem parseHeaderValue_crlf (status : HeaderState) {value : List Byte} (plain : OneLine value)
    (more : List Byte) : parseHeaderValue status (value ++ crlf ++ more) =
      { length := value.length + 2, value, status := .name } := by
  induction value with
  | nil => simp [crlf, parseHeaderValue, isEndOfLine]
  | cons b rest ih =>
    simp only [OneLine, List.mem_cons, not_or] at plain
    have none_ := isEndOfLine_cons_other (rest ++ crlf ++ more) (Ne.symm plain.1.1)
      (Ne.symm plain.2.1)
    have later := ih ⟨plain.1.2, plain.2.2⟩
    simp only [List.cons_append, parseHeaderValue, none_, Nat.lt_irrefl, if_false, later,
      List.length_cons]

def isNameByte (b : Byte) : Bool := isAlphaNum b || decide (b = 45)

theorem isNameByte_plain {b : Byte} (member : isNameByte b = true) :
    b ≠ 13 ∧ b ≠ 10 ∧ isWSP b = false := by
  refine ⟨?_, ?_, ?_⟩
  · rintro rfl
    exact absurd member (by decide)
  · rintro rfl
    exact absurd member (by decide)
  · unfold isWSP
    rw [Bool.or_eq_false_iff]
    refine ⟨decide_eq_false ?_, decide_eq_false ?_⟩
    · rintro rfl
      exact absurd member (by decide)
    · rintro rfl
      exact absurd member (by decide)

theorem parseHeaderName_field (read name value more : List Byte)
    (letters : ∀ b ∈ name, isNameByte b = true) (plain : OneLine value) :
    parseHeaderName read (name ++ 58 :: (value ++ crlf ++ more)) = some
      { length := read.length + name.length + 1 + (value.length + 2), name := read ++ name, value
        status := .name } := by
  induction name generalizing read with
  | nil =>
    have colon : isEndOfLine ((58 : Byte) :: (value ++ crlf ++ more)) = 0 :=
      isEndOfLine_cons_other _ (by decide) (by decide)
    have notSpace : isWSP 58 = false := by decide
    have notName : (isAlphaNum 58 || decide ((58 : Byte) = 45)) = false := by decide
    rw [List.nil_append, parseHeaderName]
    simp only [colon, Nat.lt_irrefl, decide_false, Bool.and_false, notSpace, notName,
      Bool.false_eq_true, if_false, if_true, parseHeaderValue_crlf .value plain]
    simp
  | cons b rest ih =>
    have letter := letters b (by simp)
    have apart := isNameByte_plain letter
    have none_ := isEndOfLine_cons_other (rest ++ 58 :: (value ++ crlf ++ more)) apart.1 apart.2.1
    have letter_ : (isAlphaNum b || decide (b = 45)) = true := letter
    rw [List.cons_append, parseHeaderName]
    simp only [none_, Nat.lt_irrefl, decide_false, Bool.and_false, apart.2.2, letter_,
      Bool.false_eq_true, if_false, if_true]
    rw [ih (read ++ [b]) (fun c member => letters c (List.mem_cons_of_mem _ member))]
    simp only [List.length_append, List.length_cons, List.length_nil, List.append_assoc,
      List.singleton_append]
    congr 2
    omega

section
variable {parsedURL : Text → Text}

/-- One field of a header. -/
theorem parse_field {s : ParseState} {name value more : List Byte}
    (status : s.status = .parseHeader) (header : s.headerStatus = .name)
    (rest : s.rest = name ++ 58 :: (value ++ crlf ++ more))
    (letters : ∀ b ∈ name, isNameByte b = true) (plain : OneLine value) :
    parse parsedURL s =
      parse parsedURL (readHeaderField (widen name) (widen value) { s with rest := more }) := by
  apply parse_again
  have line := parseHeaderName_field [] name value more letters plain
  have skipped : s.rest.drop ([] ++ name ++ 58 :: (value ++ crlf)).length = more := by
    rw [rest]
    simp
  have length : ([] : List Byte).length + name.length + 1 + (value.length + 2) =
      ([] ++ name ++ 58 :: (value ++ crlf)).length := by
    simp only [List.length_append, List.length_cons, List.length_nil, crlf]
    omega
  rw [← rest] at line
  simp only [parseTurn, status, parseHeader, header, line]
  rw [if_neg (by omega), length, skipped, List.nil_append, ← status, ← header]

/-- A folded line, which is a parameter of the field before it. -/
theorem parse_folded {s : ParseState} {value more : List Byte}
    (status : s.status = .parseHeader) (header : s.headerStatus = .name)
    (rest : s.rest = 9 :: (value ++ crlf ++ more)) (plain : OneLine value) :
    parse parsedURL s =
      parse parsedURL (readHeaderField [] (widen value) { s with rest := more }) := by
  apply parse_again
  have tab : isEndOfLine ((9 : Byte) :: (value ++ crlf ++ more)) = 0 :=
    isEndOfLine_cons_other _ (by decide) (by decide)
  have space : isWSP 9 = true := by decide
  have line : parseHeaderName [] s.rest =
      some { length := value.length + 2 + 1, value, status := .name } := by
    rw [rest, parseHeaderName]
    simp only [tab, Nat.lt_irrefl, decide_false, Bool.and_false, Bool.false_eq_true, if_false,
      space, List.isEmpty_nil, Bool.and_self, if_true, parseHeaderValue_crlf .valueFolding plain]
  have skipped : s.rest.drop (value.length + 2 + 1) = more := by
    rw [rest, List.drop_succ_cons, show value.length + 2 = (value ++ crlf).length by simp [crlf],
      List.drop_left]
  simp only [parseTurn, status, parseHeader, header, line]
  rw [if_neg (by omega), skipped, ← status, ← header]
  rfl

/-- The blank line ends the header. -/
theorem parse_blank {s : ParseState} {more : List Byte}
    (status : s.status = .parseHeader) (header : s.headerStatus = .name)
    (rest : s.rest = crlf ++ more)
    (known : (s.isMultipart && (s.boundary.getD []).isEmpty) = false) :
    parse parsedURL s = parse parsedURL
      { s with rest := more, status := .readContent, headerStatus := .headerEnd } := by
  have line : parseHeaderName [] s.rest = some { length := 2, status := .headerEnd } := by
    rw [rest]
    rfl
  have first : parseTurn parsedURL s =
      .again { s with rest := more, headerStatus := .headerEnd } := by
    simp only [parseTurn, status, parseHeader, header, line]
    rw [if_neg (by omega), rest, ← status]
    rfl
  rw [parse_again parsedURL first]
  apply parse_again
  simp only [parseTurn, status, parseHeader]
  rw [if_pos trivial, known]
  rfl

end

/-! ### The fields the serializer writes -/

/-- Letters of ASCII that neither end a line nor a quoted string nor a parameter, with no space
around them. -/
structure PlainField (text : Text) : Prop where
  ascii : ∀ c ∈ text, c < 0x80
  noReturn : (13 : UChar) ∉ text
  noNewline : (10 : UChar) ∉ text
  noQuote : (34 : UChar) ∉ text
  noSemicolon : (59 : UChar) ∉ text
  trimmed : stripWhiteSpace text = text

theorem toUInt8_toUInt16 {c : UChar} (small : c < 0x80) : c.toUInt8.toUInt16 = c := by
  apply UInt16.toNat_inj.mp
  have bound : c.toNat < 128 := UInt16.lt_iff_toNat_lt.mp small
  simp only [UInt8.toNat_toUInt16, UInt16.toNat_toUInt8]
  omega

theorem widen_narrow {text : Text} (ascii_ : ∀ c ∈ text, c < 0x80) : widen (narrow text) = text := by
  simp only [widen, narrow, List.map_map]
  calc text.map (UInt8.toUInt16 ∘ UInt16.toUInt8) = text.map id :=
        List.map_congr_left fun c member => toUInt8_toUInt16 (ascii_ c member)
    _ = text := List.map_id text

theorem mem_of_mem_narrow {text : Text} (ascii_ : ∀ c ∈ text, c < 0x80) {b : Byte}
    (member : b ∈ narrow text) : b.toUInt16 ∈ text := by
  obtain ⟨c, inText, rfl⟩ := List.mem_map.mp member
  rw [toUInt8_toUInt16 (ascii_ c inText)]
  exact inText

theorem PlainField.oneLine {text : Text} (plain : PlainField text) : OneLine (narrow text) :=
  ⟨fun member => plain.noReturn (mem_of_mem_narrow plain.ascii member),
    fun member => plain.noNewline (mem_of_mem_narrow plain.ascii member)⟩

theorem dropWhile_of_trimmed {text : Text} (trimmed : stripWhiteSpace text = text) :
    text.dropWhile isSpaceOrNewline = text := by
  apply List.IsSuffix.eq_of_length (List.dropWhile_suffix _)
  have shorter := (List.dropWhile_suffix (l := text) isSpaceOrNewline).length_le
  have again := (List.rdropWhile_prefix isSpaceOrNewline
    (text.dropWhile isSpaceOrNewline)).length_le
  rw [show (text.dropWhile isSpaceOrNewline).rdropWhile isSpaceOrNewline = text from trimmed]
    at again
  omega

theorem stripWhiteSpace_space (text : Text) :
    stripWhiteSpace (32 :: text) = stripWhiteSpace text := by
  rw [stripWhiteSpace, List.dropWhile_cons_of_pos (by decide), stripWhiteSpace]

theorem stripWhiteAndSemicolon_semicolon {text : Text} (some_ : text ≠ [])
    (trimmed : stripWhiteSpace text = text) :
    stripWhiteAndSemicolon (32 :: (text ++ [59])) = text := by
  have front : (text ++ [59]).dropWhile isSpaceOrNewline = text ++ [59] := by
    obtain ⟨c, more, rfl⟩ := List.exists_cons_of_ne_nil some_
    have head := dropWhile_of_trimmed trimmed
    rw [List.cons_append]
    apply List.dropWhile_cons_of_neg
    intro space
    rw [List.dropWhile_cons_of_pos space] at head
    have shorter := (List.dropWhile_suffix (l := more) isSpaceOrNewline).length_le
    rw [head, List.length_cons] at shorter
    omega
  have stripped : stripWhiteSpace (32 :: (text ++ [59])) = text ++ [59] := by
    rw [stripWhiteSpace_space, stripWhiteSpace, front,
      List.rdropWhile_concat_neg _ _ _ (by decide)]
  unfold stripWhiteAndSemicolon
  rw [stripped]
  dsimp only
  rw [if_pos (List.suffix_append _ _), List.dropLast_concat]

theorem stripWhiteAndSemicolon_plain {text : Text} (plain : PlainField text) :
    stripWhiteAndSemicolon (32 :: text) = text := by
  have stripped : stripWhiteSpace (32 :: text) = text := by
    rw [stripWhiteSpace_space, plain.trimmed]
  unfold stripWhiteAndSemicolon
  rw [stripped]
  dsimp only
  rw [if_neg]
  intro suffix
  exact plain.noSemicolon (suffix.subset (by simp))

theorem getQuotationString_quoted (front inner back : Text) (noQuote : (34 : UChar) ∉ front)
    (noQuote' : (34 : UChar) ∉ inner) :
    getQuotationString (front ++ 34 :: (inner ++ 34 :: back)) = some inner := by
  have skip : (front ++ 34 :: (inner ++ 34 :: back)).dropWhile (· ≠ 34) =
      34 :: (inner ++ 34 :: back) := by
    rw [List.dropWhile_append_of_pos]
    · simp
    · intro c member
      have other : c ≠ 34 := fun same => noQuote (same ▸ member)
      simpa using other
  unfold getQuotationString
  rw [skip]
  dsimp only
  rw [if_pos (by simp), List.takeWhile_append_of_pos]
  · simp
  · intro c member
    have other : c ≠ 34 := fun same => noQuote' (same ▸ member)
    simpa using other

end WkcBrowser.Mhtml
