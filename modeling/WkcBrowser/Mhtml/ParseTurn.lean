import WkcBrowser.Mhtml.Parse

/-! The loop of the reader ends on every input, and what its turns do on text laid out as lines: a
header field, a folded field, the blank line, a line of content and a boundary. -/

namespace WkcBrowser.Mhtml
open Wtf Lib

theorem isEndOfLine_le (buf : List Byte) : isEndOfLine buf ≤ buf.length := by
  unfold isEndOfLine
  split <;> simp

theorem isEndOfLine_cons_other {b : Byte} (rest : List Byte) (cr : b ≠ 13) (lf : b ≠ 10) :
    isEndOfLine (b :: rest) = 0 := by
  unfold isEndOfLine
  split <;> simp_all

theorem calcLineLength_le (buf : List Byte) : calcLineLength buf ≤ buf.length := by
  induction buf with
  | nil => simp [calcLineLength]
  | cons b rest ih =>
    have eol := isEndOfLine_le (b :: rest)
    unfold calcLineLength
    rw [List.length_cons] at eol ⊢
    split <;> omega

theorem calcLineLength_pos {buf : List Byte} (some_ : buf ≠ []) : 0 < calcLineLength buf := by
  cases buf with
  | nil => exact absurd rfl some_
  | cons b rest =>
    unfold calcLineLength
    split <;> omega

theorem parseHeaderValue_length_le (status : HeaderState) (buf : List Byte) :
    (parseHeaderValue status buf).length ≤ buf.length := by
  induction buf with
  | nil => simp [parseHeaderValue]
  | cons b rest ih =>
    have eol := isEndOfLine_le (b :: rest)
    unfold parseHeaderValue
    rw [List.length_cons] at eol ⊢
    split <;> dsimp only <;> omega

theorem parseHeaderName_length_le {name buf : List Byte} {line : HeaderLine}
    (found : parseHeaderName name buf = some line) : line.length ≤ name.length + buf.length := by
  induction buf generalizing name with
  | nil =>
    obtain rfl := Option.some.inj found
    simp
  | cons b rest ih =>
    have eol := isEndOfLine_le (b :: rest)
    have folded := parseHeaderValue_length_le .valueFolding rest
    have value := parseHeaderValue_length_le .value rest
    rw [List.length_cons] at eol ⊢
    unfold parseHeaderName at found
    split at found
    · obtain rfl := Option.some.inj found
      dsimp only
      omega
    · split at found
      · obtain rfl := Option.some.inj found
        dsimp only
        omega
      · split at found
        · have longer := ih found
          rw [List.length_append, List.length_singleton] at longer
          omega
        · split at found
          · obtain rfl := Option.some.inj found
            dsimp only
            omega
          · exact absurd found (by simp)

theorem parseHeader_length_le {buf : List Byte} {status : HeaderState} {line : HeaderLine}
    (found : parseHeader buf status = some line) : line.length ≤ buf.length := by
  cases status with
  | name => simpa using parseHeaderName_length_le found
  | value =>
    obtain rfl := Option.some.inj found
    exact parseHeaderValue_length_le _ buf
  | valueFolding =>
    obtain rfl := Option.some.inj found
    exact parseHeaderValue_length_le _ buf
  | headerEnd =>
    obtain rfl := Option.some.inj found
    exact Nat.zero_le _

@[simp] theorem getHeaderInfo_rest (sName sValue : Text) (s : ParseState) :
    (getHeaderInfo sName sValue s).rest = s.rest := by
  unfold getHeaderInfo
  split_ifs <;> rfl

@[simp] theorem getHeaderInfo_status (sName sValue : Text) (s : ParseState) :
    (getHeaderInfo sName sValue s).status = s.status := by
  unfold getHeaderInfo
  split_ifs <;> rfl

@[simp] theorem readHeaderField_rest (sName sValue : Text) (s : ParseState) :
    (readHeaderField sName sValue s).rest = s.rest := by
  unfold readHeaderField
  split <;> simp

@[simp] theorem readHeaderField_status (sName sValue : Text) (s : ParseState) :
    (readHeaderField sName sValue s).status = s.status := by
  unfold readHeaderField
  split <;> simp

@[simp] theorem appendLine_status (line : List Byte) (s : ParseState) :
    (appendLine line s).status = s.status := by
  unfold appendLine
  split <;> rfl

section
variable (parsedURL : Text → Text)

@[simp] theorem addRawData_rest (s : ParseState) : (addRawData parsedURL s).rest = s.rest := by
  unfold addRawData
  split_ifs <;> rfl

@[simp] theorem finishResource_rest (s : ParseState) :
    (finishResource parsedURL s).rest = s.rest := by
  unfold finishResource
  split <;> simp

/-- No boundary is shorter than the two dashes. -/
theorem boundary_length {line : List Byte} {boundary : Text}
    (found : (isEndBoundary line boundary || isBoundary line boundary) = true) :
    0 < line.length := by
  rcases Bool.or_eq_true _ _ ▸ found with ends | begins
  · unfold isEndBoundary at ends
    split at ends
    · exact absurd ends (by simp)
    · split at ends
      · exact absurd ends (by simp)
      · omega
  · unfold isBoundary at begins
    split at begins
    · exact absurd begins (by simp)
    · split at begins
      · exact absurd begins (by simp)
      · omega

theorem parseTurn_shrinks : Loop.Shrinks (parseTurn parsedURL) parseSize := by
  intro s s' next
  unfold parseTurn at next
  cases status : s.status with
  | parseHeader =>
    simp only [status] at next
    split at next
    · exact absurd next (by simp)
    · rename_i line found
      have within := parseHeader_length_le found
      split at next
      · split at next
        · exact absurd next (by simp)
        · obtain rfl := Loop.Turn.again.inj next
          simp only [parseSize, status]
          split <;> omega
      · rename_i some_
        obtain rfl := Loop.Turn.again.inj next
        have here : s.rest.isEmpty = false := by
          cases rest : s.rest with
          | nil => simp [rest] at within; omega
          | cons b more => rfl
        simp only [parseSize, status, readHeaderField_rest, readHeaderField_status,
          List.length_drop, here]
        split <;> simp only [Bool.false_eq_true, if_false] <;> omega
  | readContent =>
    simp only [status] at next
    have within := calcLineLength_le s.rest
    split at next
    · rename_i found
      have long := boundary_length found
      rw [List.length_take] at long
      obtain rfl := Loop.Turn.again.inj next
      simp only [parseSize, status, List.length_drop]
      split <;> split <;> omega
    · rcases List.eq_nil_or_concat s.rest with none_ | ⟨front, last, some_⟩
      · simp only [none_, List.drop_nil, List.length_nil, Nat.lt_irrefl, if_false] at next
        obtain rfl := Loop.Turn.again.inj next
        simp [parseSize, status, none_]
      · have long := calcLineLength_pos (show s.rest ≠ [] by simp [some_])
        split at next <;> rename_i more <;> obtain rfl := Loop.Turn.again.inj next <;>
          simp only [parseSize, status, appendLine_status, List.length_drop] at more ⊢ <;>
          split <;> split <;> omega
  | addResource =>
    simp only [status] at next
    split at next <;> rename_i long <;> rw [finishResource_rest] at long
    · obtain rfl := Loop.Turn.again.inj next
      have some_ : s.rest.isEmpty = false := by
        cases rest : s.rest with
        | nil => simp [rest] at long
        | cons b more => rfl
      simp [parseSize, status, some_]
    · split at next
      · exact absurd next (by simp)
      · obtain rfl := Loop.Turn.again.inj next
        have none_ : s.rest = [] := by simpa using long
        simp [parseSize, status, none_]
  | parseEnd =>
    simp only [status] at next
    exact absurd next (by simp)

/-- The reader, from a state of its loop on. -/
def parse (s : ParseState) : Option ParseState :=
  (Loop.run (parseTurn parsedURL) parseSize s).join

theorem parse_again {s s' : ParseState} (next : parseTurn parsedURL s = .again s') :
    parse parsedURL s = parse parsedURL s' := by
  rw [parse, parse, Loop.run_again (parseTurn_shrinks parsedURL) next]

theorem parse_end {s : ParseState} (status : s.status = .parseEnd) :
    parse parsedURL s = some s := by
  have next : parseTurn parsedURL s = .done (some s) := by simp only [parseTurn, status]
  rw [parse, Loop.run_done next]
  rfl

/-- On every input the loop ends, with a verdict. -/
theorem parseRawDataRepresentation_total (data : List Byte) :
    ∃ verdict, Loop.run (parseTurn parsedURL) parseSize { rest := data } = some verdict :=
  Loop.run_total (parseTurn_shrinks parsedURL) _

end

end WkcBrowser.Mhtml
