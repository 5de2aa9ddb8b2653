import Mathlib.Data.List.GetD
import WkcBrowser.Mhtml.ParseHeader

/-! Reading the content of a part, line by line, up to the boundary that follows it. -/

namespace WkcBrowser.Mhtml
open Wtf Lib

/-- What a boundary line begins with: the boundary, or the boundary after two dashes. -/
def BeginsBoundary (line : List Byte) : Prop :=
  boundaryString <+: line ∨ ascii "--" ++ boundaryString <+: line

instance (line : List Byte) : Decidable (BeginsBoundary line) := inferInstanceAs (Decidable (_ ∨ _))

/-- A line begins at the given index. -/
def LineStart (data : List Byte) (i : Nat) : Prop :=
  i = 0 ∨ data.getD (i - 1) 0 = 13 ∨ data.getD (i - 1) 0 = 10

instance (data : List Byte) (i : Nat) : Decidable (LineStart data i) :=
  inferInstanceAs (Decidable (_ ∨ _))

/-- No line of the data begins with the boundary. -/
def NoBoundaryLine (data : List Byte) : Prop :=
  ∀ i ≤ data.length, LineStart data i → ¬ BeginsBoundary (data.drop i)

instance (data : List Byte) : Decidable (NoBoundaryLine data) :=
  inferInstanceAs (Decidable (∀ i ≤ data.length, _))

theorem NoBoundaryLine.first {data : List Byte} (free : NoBoundaryLine data) :
    ¬ BeginsBoundary data :=
  free 0 (Nat.zero_le _) (.inl rfl)

/-- Behind a line end the rest of the data is free of boundaries too. -/
theorem NoBoundaryLine.rest {line rest : List Byte} (free : NoBoundaryLine (line ++ rest))
    (ended : line.getLast? = some 13 ∨ line.getLast? = some 10) : NoBoundaryLine rest := by
  have some_ : line ≠ [] := by
    rintro rfl
    simp at ended
  have positive := List.length_pos_of_ne_nil some_
  intro i within start
  have shifted := free (line.length + i) (by rw [List.length_append]; omega)
  rw [List.drop_length_add_append] at shifted
  apply shifted
  right
  rcases Nat.eq_zero_or_pos i with rfl | later
  · have last : (line ++ rest).getD (line.length + 0 - 1) 0 = line.getLastD 0 := by
      rw [Nat.add_zero, List.getD_append _ _ _ _ (by omega), List.getLastD_eq_getLast?,
        List.getLast?_eq_getElem?, List.getD_eq_getElem?_getD]
    rw [last, List.getLastD_eq_getLast?]
    rcases ended with ended | ended <;> simp [ended]
  · have there : (line ++ rest).getD (line.length + i - 1) 0 = rest.getD (i - 1) 0 := by
      rw [List.getD_append_right _ _ _ _ (by omega)]
      congr 1
      omega
    rw [there]
    exact start.resolve_left (by omega)

/-- The first line of content that a line end follows: it ends inside the content, or with it. -/
theorem calcLineLength_content (data more : List Byte) :
    (∃ line rest, data = line ++ rest ∧ (line.getLast? = some 13 ∨ line.getLast? = some 10) ∧
      calcLineLength (data ++ crlf ++ more) = line.length) ∨
    calcLineLength (data ++ crlf ++ more) = data.length + 2 := by
  induction data with
  | nil => exact .inr (by simp [crlf, calcLineLength, isEndOfLine])
  | cons b rest ih =>
    by_cases lf : b = 10
    · subst lf
      exact .inl ⟨[10], rest, rfl, by simp, by simp [calcLineLength, isEndOfLine]⟩
    by_cases cr : b = 13
    · subst cr
      left
      cases rest with
      | nil => exact ⟨[13], [], rfl, by simp, by simp [crlf, calcLineLength, isEndOfLine]⟩
      | cons c rest =>
        by_cases lf : c = 10
        · subst lf
          exact ⟨[13, 10], rest, rfl, by simp, by simp [calcLineLength, isEndOfLine]⟩
        · refine ⟨[13], c :: rest, rfl, by simp, ?_⟩
          have one : isEndOfLine (13 :: c :: (rest ++ crlf ++ more)) = 1 := by
            unfold isEndOfLine
            split <;> simp_all
          have same : 13 :: c :: rest ++ crlf ++ more = 13 :: c :: (rest ++ crlf ++ more) := rfl
          rw [same, calcLineLength, one, if_pos Nat.one_pos]
          rfl
    · have none_ := isEndOfLine_cons_other (rest ++ crlf ++ more) cr lf
      have step : calcLineLength (b :: rest ++ crlf ++ more) =
          calcLineLength (rest ++ crlf ++ more) + 1 := by
        simp only [List.cons_append, calcLineLength, none_, Nat.lt_irrefl, if_false]
      rcases ih with ⟨line, later, rfl, ended, length⟩ | length
      · refine .inl ⟨b :: line, later, rfl, ?_, by rw [step, length, List.length_cons]⟩
        have some_ : line ≠ [] := by
          rintro rfl
          simp at ended
        rw [List.getLast?_cons_of_ne_nil some_]
        exact ended
      · exact .inr (by rw [step, length, List.length_cons])

theorem widen_injective : Function.Injective UInt8.toUInt16 := by
  intro a b same
  have numbers := congrArg UInt16.toNat same
  simp only [UInt8.toNat_toUInt16] at numbers
  exact UInt8.toNat_inj.mp numbers

theorem prefix_of_widen {a b : List Byte} (begins : widen a <+: widen b) : a <+: b :=
  (List.prefix_map_iff_of_injective widen_injective).mp begins

/-- A line taken for a boundary begins with one. -/
theorem beginsBoundary_of_found {line : List Byte}
    (found : (isEndBoundary line (widen boundaryString) ||
      isBoundary line (widen boundaryString)) = true) : BeginsBoundary line := by
  have dashed : ∀ {n : Nat}, line.getD 0 0 = 45 → line.getD 1 0 = 45 →
      boundaryString <+: (line.drop 2).take n → ascii "--" ++ boundaryString <+: line := by
    intro n first second begins
    match line, first, second, begins with
    | [], first, _, _ => exact absurd first (by decide)
    | [a], _, second, _ => exact absurd (show (0 : Byte) = 45 from second) (by decide)
    | a :: b :: rest, first, second, begins =>
      obtain rfl : a = 45 := first
      obtain rfl : b = 45 := second
      have whole := begins.trans (List.take_prefix n _)
      simpa [ascii] using whole
  rcases Bool.or_eq_true _ _ ▸ found with ends | begins
  · unfold isEndBoundary at ends
    split at ends
    · exact absurd ends (by simp)
    split at ends
    · exact absurd ends (by simp)
    dsimp only at ends
    split at ends
    · exact absurd ends (by simp)
    split at ends
    · simp only [Bool.and_eq_true, decide_eq_true_eq] at ends
      have begins := prefix_of_widen ((find_eq_zero _ _).mp ends.1.1)
      exact .inl (begins.trans (List.take_prefix _ _))
    · split at ends <;> rename_i dashes
      · exact absurd ends (by simp)
      · simp only [Bool.not_eq_true', Bool.not_eq_false, Bool.and_eq_true,
          decide_eq_true_eq] at ends dashes
        exact .inr (dashed dashes.1 dashes.2 (prefix_of_widen ((find_eq_zero _ _).mp ends.1.1)))
  · unfold isBoundary at begins
    split at begins
    · exact absurd begins (by simp)
    split at begins
    · exact absurd begins (by simp)
    split at begins <;> rename_i dashes
    · exact absurd begins (by simp)
    · simp only [Bool.not_eq_true', Bool.not_eq_false, Bool.and_eq_true,
        decide_eq_true_eq] at begins dashes
      have whole := prefix_of_widen ((find_eq_zero _ _).mp begins)
      rw [← List.take_length (l := line.drop 2)] at whole
      exact .inr (dashed dashes.1 dashes.2 whole)

/-- What has no byte of a line end can only begin before the line end. -/
theorem prefix_before_line_end {p data more : List Byte} (plain : (13 : Byte) ∉ p)
    (begins : p <+: data ++ crlf ++ more) : p <+: data := by
  have line : data ++ [13] <+: data ++ crlf ++ more := ⟨10 :: more, by simp [crlf]⟩
  rcases List.prefix_or_prefix_of_prefix begins line with shorter | longer
  · rcases List.prefix_concat_iff.mp shorter with same | inside
    · exact absurd (by simp [same]) plain
    · exact inside
  · exact absurd (longer.subset (by simp)) plain

/-- Such a line is not taken for a boundary. -/
theorem not_found {data line more : List Byte} {boundary : Text}
    (known : boundary = widen boundaryString) (free : ¬ BeginsBoundary data)
    (front : line <+: data ++ crlf ++ more) :
    (isEndBoundary line boundary || isBoundary line boundary) = false := by
  rw [known, ← Bool.not_eq_true]
  intro found
  rcases beginsBoundary_of_found found with begins | begins
  · exact free (.inl (prefix_before_line_end (by decide) (begins.trans front)))
  · exact free (.inr (prefix_before_line_end (by decide) (begins.trans front)))

/-- What `READ_CONTENT` keeps of a line. -/
def keptLine (s : ParseState) (line : List Byte) : List Byte :=
  if equalIgnoringCase s.type (widen (ascii "multipart/related")) || s.location.isEmpty then []
  else line

theorem keptLine_append (s : ParseState) (a b : List Byte) :
    keptLine s (a ++ b) = keptLine s a ++ keptLine s b := by
  unfold keptLine
  split <;> rfl

theorem appendLine_eq (line : List Byte) (s : ParseState) :
    appendLine line s = { s with rawData := s.rawData ++ keptLine s line } := by
  unfold appendLine keptLine
  split
  · rw [List.append_nil]
  · rfl

section
variable {parsedURL : Text → Text}

variable (parsedURL) in
/-- One line of content. -/
theorem parse_line {s : ParseState} (status : s.status = .readContent) {line more : List Byte}
    (rest : s.rest = line ++ more) (length : calcLineLength s.rest = line.length)
    (notBoundary : (isEndBoundary line (s.boundary.getD []) ||
      isBoundary line (s.boundary.getD [])) = false) :
    parse parsedURL s = parse parsedURL
      { s with
        rest := more
        rawData := s.rawData ++ keptLine s line
        status := if 0 < more.length then .readContent else .addResource } := by
  apply parse_again
  have taken : s.rest.take (calcLineLength s.rest) = line := by
    rw [length, rest, List.take_left]
  have skipped : s.rest.drop (calcLineLength s.rest) = more := by
    rw [length, rest, List.drop_left]
  simp only [parseTurn, status, taken, skipped, notBoundary, Bool.false_eq_true, if_false,
    appendLine_eq]
  split
  · rw [← status]
  · rfl

variable (parsedURL) in
/-- Content in the multipart form, up to the line of the boundary. -/
theorem parse_content {more : List Byte} (some_ : more ≠ []) (n : Nat) (data : List Byte)
    (bound : data.length ≤ n) {s : ParseState} (status : s.status = .readContent)
    (rest : s.rest = data ++ crlf ++ more)
    (boundary : s.boundary.getD [] = widen boundaryString) (free : NoBoundaryLine data) :
    parse parsedURL s = parse parsedURL
      { s with rest := more, rawData := s.rawData ++ keptLine s (data ++ crlf) } := by
  have positive := List.length_pos_of_ne_nil some_
  induction n generalizing data s with
  | zero =>
    obtain rfl := List.length_eq_zero_iff.mp (Nat.le_zero.mp bound)
    have length : calcLineLength s.rest = crlf.length := by
      rw [rest]
      have plain : OneLine [] := ⟨by simp, by simp⟩
      exact calcLineLength_crlf plain more
    have step := parse_line parsedURL status rest length
      (not_found boundary free.first (List.prefix_append ([] ++ crlf) more))
    rw [if_pos positive, ← status] at step
    exact step
  | succ n ih =>
    rcases calcLineLength_content data more with ⟨line, later, same, ended, length⟩ | length
    · have shorter : line.length + later.length = data.length := by rw [same, List.length_append]
      have linePositive : 0 < line.length := by
        apply List.length_pos_of_ne_nil
        rintro rfl
        simp at ended
      have split_ : data ++ crlf ++ more = line ++ (later ++ crlf ++ more) := by
        rw [same, List.append_assoc, List.append_assoc, List.append_assoc]
      have behind : NoBoundaryLine later := NoBoundaryLine.rest (same ▸ free) ended
      have starts : line <+: data ++ crlf ++ more := ⟨_, split_.symm⟩
      have step := parse_line parsedURL status (rest.trans split_)
        (by rw [rest, length])
        (not_found boundary free.first starts)
      rw [if_pos (by simp only [List.length_append]; omega), ← status] at step
      have others := ih later (by omega) (s := { s with
        rest := later ++ crlf ++ more, rawData := s.rawData ++ keptLine s line }) status rfl
        boundary behind
      rw [step, others, same, List.append_assoc line later crlf,
        keptLine_append s line (later ++ crlf), ← List.append_assoc]
      rfl
    · have whole : (data ++ crlf).length = data.length + 2 := by simp [crlf]
      have step := parse_line parsedURL status rest (by rw [rest, length, whole])
        (not_found boundary free.first (List.prefix_append (data ++ crlf) more))
      rw [if_pos positive, ← status] at step
      exact step

variable (parsedURL) in
/-- Content without a boundary, up to the end of the file. -/
theorem parse_content_end (n : Nat) {s : ParseState} (bound : s.rest.length ≤ n)
    (status : s.status = .readContent) (boundary : s.boundary.getD [] = []) :
    parse parsedURL s = parse parsedURL
      { s with rest := [], rawData := s.rawData ++ keptLine s s.rest, status := .addResource } := by
  induction n generalizing s with
  | zero =>
    have none_ : s.rest = [] := List.length_eq_zero_iff.mp (Nat.le_zero.mp bound)
    have step := parse_line parsedURL status (show s.rest = [] ++ [] from none_)
      (by rw [none_]; rfl) (by simp [boundary, isEndBoundary, isBoundary])
    rw [none_]
    exact step
  | succ n ih =>
    have within := calcLineLength_le s.rest
    have split_ := (List.take_append_drop (calcLineLength s.rest) s.rest).symm
    have step := parse_line parsedURL status split_
      (by rw [List.length_take]; omega) (by simp [boundary, isEndBoundary, isBoundary])
    rw [step]
    by_cases more : s.rest.drop (calcLineLength s.rest) = []
    · rw [more, List.append_nil] at split_
      rw [more, ← split_]
      rfl
    · have positive := List.length_pos_of_ne_nil more
      have long : 0 < calcLineLength s.rest := by
        apply calcLineLength_pos
        intro none_
        exact more (by rw [none_]; rfl)
      rw [if_pos positive, ← status]
      have joined := keptLine_append s (s.rest.take (calcLineLength s.rest))
        (s.rest.drop (calcLineLength s.rest))
      rw [← split_] at joined
      have others := ih (s := { s with
        rest := s.rest.drop (calcLineLength s.rest)
        rawData := s.rawData ++ keptLine s (s.rest.take (calcLineLength s.rest)) })
        (by rw [List.length_drop]; omega) status boundary
      rw [others, joined, ← List.append_assoc]
      rfl

/-- The line of a boundary. -/
theorem parse_boundary {s : ParseState} {line more : List Byte} (status : s.status = .readContent)
    (rest : s.rest = line ++ crlf ++ more) (plain : OneLine line)
    (found : (isEndBoundary (line ++ crlf) (s.boundary.getD []) ||
      isBoundary (line ++ crlf) (s.boundary.getD [])) = true) :
    parse parsedURL s = parse parsedURL { s with rest := more, status := .addResource } := by
  apply parse_again
  have whole : (line ++ crlf).length = line.length + 2 := by simp [crlf]
  have length : calcLineLength s.rest = (line ++ crlf).length := by
    rw [rest, calcLineLength_crlf plain, whole]
  have taken : s.rest.take (calcLineLength s.rest) = line ++ crlf := by
    rw [length, rest, List.take_left]
  have skipped : s.rest.drop (calcLineLength s.rest) = more := by
    rw [length, rest, List.drop_left]
  simp only [parseTurn, status, taken, skipped, found, if_true]

variable (parsedURL) in
/-- In the multipart form the line end before the boundary is not part of the data. -/
theorem finishResource_multipart {s : ParseState} {data : List Byte} (multi : s.isMultipart = true)
    (raw : s.rawData = data ++ crlf) (some_ : data ≠ []) (type : s.type ≠ []) :
    finishResource parsedURL s =
      { s with
        type := [], location := [], charset := [], rawData := []
        mainResourceType := some (s.mainResourceType.getD s.type)
        added := s.added ++ [⟨parsedURL s.location, s.type, s.charset, data⟩] } := by
  have positive := List.length_pos_of_ne_nil some_
  have length : s.rawData.length = data.length + 2 := by simp [raw, crlf]
  have cr : s.rawData.getD (s.rawData.length - 2) 0 = 13 := by
    rw [length, raw, Nat.add_sub_cancel, List.getD_append_right _ _ _ _ (Nat.le_refl _),
      Nat.sub_self]
    rfl
  have lf : s.rawData.getD (s.rawData.length - 1) 0 = 10 := by
    rw [length, raw, List.getD_append_right _ _ _ _ (by omega)]
    have one : data.length + 2 - 1 - data.length = 1 := by omega
    rw [one]
    rfl
  have taken : s.rawData.take (s.rawData.length - 2) = data := by
    rw [length, raw, Nat.add_sub_cancel, List.take_left]
  have long : decide (2 < s.rawData.length) = true := decide_eq_true (by omega)
  have kept : s.rawData.isEmpty = false := by
    rw [raw]
    cases data with
    | nil => exact absurd rfl some_
    | cons b rest => rfl
  have typed : s.type.isEmpty = false := by simpa using type
  simp only [finishResource, kept, Bool.not_false, if_true, addRawData, typed]
  cases main : s.mainResourceType with
  | none =>
    simp only [Option.isNone_none, if_true, long, multi, cr, lf, decide_true, Bool.and_self, taken,
      Option.getD_none]
  | some known =>
    simp only [Option.isNone_some, Bool.false_eq_true, if_false, if_true, long, multi, cr, lf,
      decide_true, Bool.and_self, taken, Option.getD_some, main]

variable (parsedURL) in
/-- In the single part form everything up to the end of the file is data. -/
theorem finishResource_single {s : ParseState} (single : s.isMultipart = false)
    (some_ : s.rawData ≠ []) (type : s.type ≠ []) :
    finishResource parsedURL s =
      { s with
        type := [], location := [], charset := [], rawData := []
        mainResourceType := some (s.mainResourceType.getD s.type)
        added := s.added ++ [⟨parsedURL s.location, s.type, s.charset, s.rawData⟩] } := by
  have kept : s.rawData.isEmpty = false := by simpa using some_
  have typed : s.type.isEmpty = false := by simpa using type
  simp only [finishResource, kept, Bool.not_false, if_true, addRawData, typed]
  cases main : s.mainResourceType with
  | none => simp [single]
  | some known => simp [single, main]

theorem parse_addResource {s : ParseState} (status : s.status = .addResource)
    (more : s.rest ≠ []) : parse parsedURL s = parse parsedURL
      { finishResource parsedURL s with headerStatus := .name, status := .parseHeader } := by
  apply parse_again
  have positive := List.length_pos_of_ne_nil more
  simp only [parseTurn, status, finishResource_rest, positive, if_true]

theorem parse_addResource_last {s : ParseState} (status : s.status = .addResource)
    (none_ : s.rest = []) (main : (finishResource parsedURL s).mainResourceType.isSome = true) :
    parse parsedURL s = some { finishResource parsedURL s with status := .parseEnd } := by
  have known : (finishResource parsedURL s).mainResourceType.isNone = false := by
    cases type : (finishResource parsedURL s).mainResourceType with
    | none => simp [type] at main
    | some type => rfl
  have next : parseTurn parsedURL s =
      .again { finishResource parsedURL s with status := .parseEnd } := by
    simp only [parseTurn, status, finishResource_rest, none_, List.length_nil, Nat.lt_irrefl,
      if_false, known, Bool.false_eq_true]
  rw [parse_again parsedURL next, parse_end parsedURL rfl]

end

end WkcBrowser.Mhtml
