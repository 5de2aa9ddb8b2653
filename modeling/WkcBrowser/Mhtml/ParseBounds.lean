import WkcBrowser.Mhtml.ParseInvariants

/-! The reader of an MHTML file with its pointers: every byte it reads is looked up in the buffer, and a
read outside ends it. It reads what the reader of lists reads, so it never gets outside. -/

namespace WkcBrowser.Mhtml.Checked
open Wtf Lib

section
variable (data : List Byte)

/-- The bytes from a pointer on. -/
def window (p length : Nat) : List Byte := (data.drop p).take length

/-- `String(characters, length)` and `append` read all the bytes. -/
def slice (p length : Nat) : Option (List Byte) :=
  if p + length ≤ data.length then some (window data p length) else none

def isEndOfLine (buf bufLen : Nat) : Option Nat :=
  if bufLen < 1 then some 0
  else do
    let b ← data[buf]?
    if b = 13 then
      if 2 ≤ bufLen then
        let next ← data[buf + 1]?
        if next = 10 then some 2 else some 1
      else some 1
    else if b = 10 then some 1
    else some 0

def calcLineLength : (buf bufLen : Nat) → Option Nat
  | _, 0 => some 0
  | p, rest_len + 1 => do
    let len ← isEndOfLine data p (rest_len + 1)
    if len = 2 ∨ len = 1 then some len
    else
      let more ← calcLineLength (p + 1) rest_len
      some (more + 1)

/-- What `parseHeader` returns and stores, with the name and the value by their pointers and lengths. -/
structure HeaderPointers where
  length : Nat := 0
  name : Option (Nat × Nat) := none
  value : Option (Nat × Nat) := none
  status : HeaderState

/-- The loop of `parseHeader`, in the given state of its locals. The inner `none` is `-1`. -/
def parseHeaderLoop (buf : Nat) : (restLen : Nat) → (status : HeaderState) → (p pVBegin : Nat) →
    (name : Option (Nat × Nat)) → Option (Option HeaderPointers)
  | 0, status, p, pVBegin, name =>
    match status with
    | .name | .headerEnd => some (some { name, status })
    | .value | .valueFolding =>
      some (some { length := p - buf, name, value := some (pVBegin, p - pVBegin), status })
  | restLen + 1, status, p, pVBegin, name =>
    match status with
    | .name => do
      let len ← if p = buf then isEndOfLine data p (restLen + 1) else some 0
      if 0 < len then some (some { length := len, name, status := .headerEnd })
      else
        let b ← data[p]?
        if p = buf ∧ isWSP b = true then parseHeaderLoop buf restLen .valueFolding (p + 1) (p + 1) name
        else if isAlphaNum b || decide (b = 45) then
          parseHeaderLoop buf restLen .name (p + 1) pVBegin name
        else if b = 58 then
          parseHeaderLoop buf restLen .value (p + 1) (p + 1) (some (buf, p - buf))
        else some none
    | .value | .valueFolding => do
      let len ← isEndOfLine data p (restLen + 1)
      if 0 < len then
        some (some { length := p + len - buf, name, value := some (pVBegin, p - pVBegin), status := .name })
      else parseHeaderLoop buf restLen status (p + 1) pVBegin name
    | .headerEnd => some (some { name, status })

def parseHeader (buf bufLen : Nat) (status : HeaderState) : Option (Option HeaderPointers) :=
  parseHeaderLoop data buf bufLen status buf buf none

/-- `String(pointer, length)`, which is null for a null pointer. -/
def sliceOf : Option (Nat × Nat) → Option (List Byte)
  | none => some []
  | some (p, length) => slice data p length

/-- `p` and `rest_len` behind the first dashes, if there are any. -/
def endsBoundary (boundary : Text) (p restLen : Nat) : Option Bool := do
  let tmp ← slice data p restLen
  if find boundary (widen tmp) ≠ some 0 then some false
  else
    let first ← data[p + boundary.length]?
    if first ≠ 45 then some false
    else
      let second ← data[p + boundary.length + 1]?
      some (decide (second = 45))

/-- Whether the buffer begins with two dashes. -/
def beginsDashes (buf : Nat) : Option Bool := do
  let first ← data[buf]?
  if first ≠ 45 then some false
  else
    let second ← data[buf + 1]?
    some (decide (second = 45))

/-- The lengths of strings are added in 32 bits. -/
def isEndBoundary (buf bufLen : Nat) (boundary : Text) : Option Bool :=
  if boundary.isEmpty then some false
  else if bufLen < 2 then some false
  else
    let bufLen := bufLen - 2
    if bufLen < (boundary.length + 2) % 2 ^ 32 then some false
    else if bufLen < (boundary.length + 4) % 2 ^ 32 then endsBoundary data boundary buf bufLen
    else do
      let dashes ← beginsDashes data buf
      if !dashes then some false else endsBoundary data boundary (buf + 2) (bufLen - 2)

def isBoundary (buf bufLen : Nat) (boundary : Text) : Option Bool :=
  if boundary.isEmpty then some false
  else if bufLen < (boundary.length + 2) % 2 ^ 32 then some false
  else do
    let dashes ← beginsDashes data buf
    if !dashes then some false
    else
      let tmp ← slice data (buf + 2) (bufLen - 2)
      some (decide (find boundary (widen tmp) = some 0))

end

/-- The locals and members of `parseRawDataRepresentation`: `p`, `rest_len` and the others. The bytes that
are left are not in `state.rest` here. -/
structure Reader where
  p : Nat
  restLen : Nat
  state : ParseState

/-- A size is read as an `int`. A negative one reads as nothing that is left. -/
def restLength (size : Nat) : Nat := ((size : Int).bmod (2 ^ 32)).toNat

def Reader.start (data : List Byte) : Reader where
  p := 0
  restLen := restLength data.length
  state := { rest := [] }

section
variable (parsedURL : Text → Text) (data : List Byte)

/-- The result `none` is a read outside the buffer, `some none` is `false`. -/
def parseTurn (r : Reader) : Loop.Turn Reader (Option (Option Reader)) :=
  match r.state.status with
  | .parseHeader =>
    match parseHeader data r.p r.restLen r.state.headerStatus with
    | none => .done none
    | some none => .done (some none)
    | some (some line) =>
      let s := { r.state with headerStatus := line.status }
      if line.length = 0 then
        if s.isMultipart && (s.boundary.getD []).isEmpty then .done (some none)
        else .again { r with state := { s with status := .readContent } }
      else
        match sliceOf data line.name, sliceOf data line.value with
        | some name, some value =>
          .again
            { p := r.p + line.length
              restLen := r.restLen - line.length
              state := readHeaderField (widen name) (widen value) s }
        | _, _ => .done none
  | .readContent =>
    let boundary := r.state.boundary.getD []
    let found : Option (Nat × List Byte × Bool) := do
      let len ← calcLineLength data r.p r.restLen
      let line ← slice data r.p len
      let ends ← isEndBoundary data r.p len boundary
      let begins ← if ends then some true else isBoundary data r.p len boundary
      some (len, line, begins)
    match found with
    | none => .done none
    | some (len, line, begins) =>
      let next := { r with p := r.p + len, restLen := r.restLen - len }
      if begins then .again { next with state := { r.state with status := .addResource } }
      else
        let s := appendLine line r.state
        if 0 < next.restLen then .again { next with state := s }
        else .again { next with state := { s with status := .addResource } }
  | .addResource =>
    let s := finishResource parsedURL r.state
    if 0 < r.restLen then .again { r with state := { s with headerStatus := .name, status := .parseHeader } }
    else if s.mainResourceType.isNone then .done (some none)
    else .again { r with state := { s with status := .parseEnd } }
  | .parseEnd => .done (some (some r))

end

/-! What is read inside the buffer. -/

section
variable {data : List Byte} {p n : Nat}

theorem window_zero (p : Nat) : window data p 0 = [] := List.take_zero

theorem window_length (inside : p + n ≤ data.length) : (window data p n).length = n := by
  rw [window, List.length_take, List.length_drop]
  omega

theorem window_succ (inside : p + (n + 1) ≤ data.length) :
    ∃ b, data[p]? = some b ∧ window data p (n + 1) = b :: window data (p + 1) n := by
  have here : p < data.length := by omega
  refine ⟨data[p], List.getElem?_eq_getElem here, ?_⟩
  rw [window, List.drop_eq_getElem_cons here, List.take_succ_cons, window]

theorem window_getD {i : Nat} (inside : p + n ≤ data.length) (before : i < n) :
    data[p + i]? = some ((window data p n).getD i 0) := by
  have there : p + i < data.length := by omega
  rw [List.getElem?_eq_getElem there, window, List.getD_eq_getElem?_getD, List.getElem?_take_of_lt before,
    List.getElem?_drop, List.getElem?_eq_getElem there, Option.getD_some]

theorem window_take (m : Nat) : (window data p n).take m = window data p (min m n) := List.take_take

theorem window_drop (m : Nat) : (window data p n).drop m = window data (p + m) (n - m) := by
  rw [window, List.drop_take, List.drop_drop, window]

theorem window_getD_window {m i : Nat} (inside : p + n ≤ data.length) (before : i < m) (shorter : m ≤ n) :
    (window data p n).getD i 0 = (window data p m).getD i 0 := by
  have long := window_getD inside (Nat.lt_of_lt_of_le before shorter)
  have short : data[p + i]? = some ((window data p m).getD i 0) := window_getD (by omega) before
  exact Option.some.inj (long.symm.trans short)

theorem slice_eq (inside : p + n ≤ data.length) : slice data p n = some (window data p n) :=
  if_pos inside

theorem isEndOfLine_eq (inside : p + n ≤ data.length) :
    isEndOfLine data p n = some (Mhtml.isEndOfLine (window data p n)) := by
  match n, inside with
  | 0, _ => rfl
  | 1, inside =>
    obtain ⟨b, first, here⟩ := window_succ inside
    rw [isEndOfLine, if_neg (by omega), first, here, window_zero]
    by_cases cr : b = 13
    · subst cr
      rfl
    · by_cases lf : b = 10
      · subst lf
        rfl
      · rw [isEndOfLine_cons_other [] cr lf]
        simp [cr, lf]
  | n + 2, inside =>
    obtain ⟨b, first, here⟩ := window_succ inside
    have within : p + 1 + (n + 1) ≤ data.length := by omega
    obtain ⟨c, second, behind⟩ := window_succ within
    rw [isEndOfLine, if_neg (by omega), first, here, behind]
    by_cases cr : b = 13
    · subst cr
      have long : 2 ≤ n + 2 := by omega
      simp only [Option.bind_eq_bind, Option.bind_some, if_true, if_pos long, second]
      by_cases lf : c = 10
      · subst lf
        rfl
      · rw [if_neg lf]
        unfold Mhtml.isEndOfLine
        split <;> simp_all
    · by_cases lf : b = 10
      · subst lf
        rfl
      · rw [isEndOfLine_cons_other _ cr lf]
        simp [cr, lf]

theorem isEndOfLine_two (buf : List Byte) :
    (Mhtml.isEndOfLine buf = 2 ∨ Mhtml.isEndOfLine buf = 1) ↔ 0 < Mhtml.isEndOfLine buf := by
  unfold Mhtml.isEndOfLine
  split <;> decide

theorem calcLineLength_eq (inside : p + n ≤ data.length) :
    calcLineLength data p n = some (Mhtml.calcLineLength (window data p n)) := by
  induction n generalizing p with
  | zero => rfl
  | succ n ih =>
    obtain ⟨b, -, here⟩ := window_succ inside
    rw [calcLineLength, isEndOfLine_eq inside, here, Mhtml.calcLineLength]
    simp only [Option.bind_eq_bind, Option.bind_some, isEndOfLine_two]
    split_ifs with ended
    · rfl
    · rw [ih (by omega)]
      rfl

end

/-! The fields of a header. -/

/-- The pointers are those of the field, and inside the buffer. -/
structure HeaderPointers.Points (data : List Byte) (pointers : HeaderPointers) (line : HeaderLine) :
    Prop where
  length : pointers.length = line.length
  status : pointers.status = line.status
  name : sliceOf data pointers.name = some line.name
  value : sliceOf data pointers.value = some line.value

section
variable {data : List Byte} {buf p pVBegin n : Nat} {name : Option (Nat × Nat)} {status : HeaderState}

/-- The value is what is before its line end. -/
theorem parseHeaderValue_value (status : HeaderState) (text : List Byte) :
    (parseHeaderValue status text).value = text.take (parseHeaderValue status text).value.length := by
  induction text with
  | nil => rfl
  | cons b rest ih =>
    rw [parseHeaderValue]
    split_ifs with ended
    · rfl
    · exact congrArg (b :: ·) ih

theorem parseHeaderLoop_value (isValue : status = .value ∨ status = .valueFolding)
    (inside : p + n ≤ data.length) (behind : buf ≤ p) (from_ : pVBegin ≤ p) :
    parseHeaderLoop data buf n status p pVBegin name =
      let line := parseHeaderValue status (window data p n)
      some (some
        { length := p - buf + line.length
          name
          value := some (pVBegin, p - pVBegin + line.value.length)
          status := line.status }) := by
  induction n generalizing p with
  | zero =>
    rcases isValue with rfl | rfl <;> rfl
  | succ n ih =>
    obtain ⟨b, -, here⟩ := window_succ inside
    have next := ih (p := p + 1) (by omega) (by omega) (by omega)
    have eol := isEndOfLine_eq inside
    have step : parseHeaderLoop data buf (n + 1) status p pVBegin name =
        if 0 < Mhtml.isEndOfLine (window data p (n + 1)) then
          some (some
            { length := p + Mhtml.isEndOfLine (window data p (n + 1)) - buf
              name
              value := some (pVBegin, p - pVBegin)
              status := .name })
        else parseHeaderLoop data buf n status (p + 1) pVBegin name := by
      rcases isValue with rfl | rfl <;> rw [parseHeaderLoop, eol] <;> rfl
    rw [step, here, parseHeaderValue]
    split_ifs with ended
    · dsimp only
      have length : p + Mhtml.isEndOfLine (b :: window data (p + 1) n) - buf =
          p - buf + Mhtml.isEndOfLine (b :: window data (p + 1) n) := by omega
      rw [length]
      rfl
    · rw [next]
      dsimp only
      have length : p + 1 - buf + (parseHeaderValue status (window data (p + 1) n)).length =
          p - buf + ((parseHeaderValue status (window data (p + 1) n)).length + 1) := by omega
      have value : p + 1 - pVBegin + (parseHeaderValue status (window data (p + 1) n)).value.length =
          p - pVBegin + ((parseHeaderValue status (window data (p + 1) n)).value.length + 1) := by omega
      rw [length, value, List.length_cons]

/-- A value is stored where it was read. -/
theorem slice_value (status : HeaderState) (inside : p + n ≤ data.length) :
    slice data p (parseHeaderValue status (window data p n)).value.length =
      some (parseHeaderValue status (window data p n)).value := by
  have front := parseHeaderValue_value status (window data p n)
  have short := congrArg List.length front
  rw [List.length_take, window_length inside] at short
  rw [slice_eq (by omega)]
  conv_rhs => rw [front]
  rw [window_take, Nat.min_eq_left (by omega)]

theorem parseHeaderValue_name (status : HeaderState) (text : List Byte) :
    (parseHeaderValue status text).name = [] := by
  induction text with
  | nil => rfl
  | cons b rest ih =>
    rw [parseHeaderValue]
    split_ifs
    · rfl
    · exact ih

theorem window_concat {k : Nat} {b : Byte} (here : data[buf + k]? = some b) :
    window data buf (k + 1) = window data buf k ++ [b] := by
  rw [window, List.take_add_one, List.getElem?_drop, here, window]
  rfl

/-- The pointers of a value that begins at `p`. -/
theorem points_value {named : List Byte} (inside : p + n ≤ data.length)
    (nameRead : sliceOf data name = some named) (status : HeaderState) (length : Nat) :
    HeaderPointers.Points data
      { length
        name
        value := some (p, p - p + (parseHeaderValue status (window data p n)).value.length)
        status := (parseHeaderValue status (window data p n)).status }
      { parseHeaderValue status (window data p n) with length, name := named } where
  length := rfl
  status := rfl
  name := nameRead
  value := by
    rw [Nat.sub_self, Nat.zero_add]
    exact slice_value status inside

theorem parseHeaderLoop_name {k : Nat} (inside : buf + k + n ≤ data.length) :
    (∃ pointers line, parseHeaderLoop data buf n .name (buf + k) pVBegin none = some (some pointers) ∧
      parseHeaderName (window data buf k) (window data (buf + k) n) = some line ∧
        pointers.Points data line) ∨
    parseHeaderLoop data buf n .name (buf + k) pVBegin none = some none ∧
      parseHeaderName (window data buf k) (window data (buf + k) n) = none := by
  induction n generalizing k with
  | zero => exact Or.inl ⟨_, _, rfl, rfl, ⟨rfl, rfl, rfl, rfl⟩⟩
  | succ n ih =>
    obtain ⟨b, first, here⟩ := window_succ inside
    have behind : buf + k + 1 + n ≤ data.length := by omega
    have eol := isEndOfLine_eq inside
    have atBegin : buf + k = buf ↔ k = 0 := by omega
    have empty : (window data buf k).isEmpty = decide (k = 0) := by
      rw [Bool.eq_iff_iff, List.isEmpty_iff_length_eq_zero, window_length (by omega), decide_eq_true_iff]
    have step : parseHeaderLoop data buf (n + 1) .name (buf + k) pVBegin none =
        if k = 0 ∧ 0 < Mhtml.isEndOfLine (window data (buf + k) (n + 1)) then
          some (some
            { length := Mhtml.isEndOfLine (window data (buf + k) (n + 1)), status := .headerEnd })
        else if k = 0 ∧ isWSP b = true then
          parseHeaderLoop data buf n .valueFolding (buf + k + 1) (buf + k + 1) none
        else if isAlphaNum b || decide (b = 45) then
          parseHeaderLoop data buf n .name (buf + (k + 1)) pVBegin none
        else if b = 58 then
          parseHeaderLoop data buf n .value (buf + k + 1) (buf + k + 1) (some (buf, buf + k - buf))
        else some none := by
      rw [parseHeaderLoop]
      by_cases start : k = 0
      · subst start
        simp only [Nat.add_zero] at eol first ⊢
        simp only [if_true, true_and, eol, first, Option.bind_eq_bind, Option.bind_some, Nat.zero_add]
      · simp only [atBegin, start, if_false, false_and, Option.bind_eq_bind, Option.bind_some,
          Nat.lt_irrefl, first]
        rfl
    rw [step, here, parseHeaderName, empty]
    simp only [Bool.and_eq_true, decide_eq_true_eq]
    by_cases ended : k = 0 ∧ 0 < Mhtml.isEndOfLine (b :: window data (buf + k + 1) n)
    · rw [if_pos ended, if_pos ended]
      exact Or.inl ⟨_, _, rfl, rfl, ⟨rfl, rfl, rfl, rfl⟩⟩
    rw [if_neg ended, if_neg ended]
    by_cases folded : k = 0 ∧ isWSP b = true
    · rw [if_pos folded, if_pos folded, parseHeaderLoop_value (Or.inr rfl) behind (by omega) (Nat.le_refl _)]
      refine Or.inl ⟨_, _, rfl, rfl, ?_⟩
      have length : buf + k + 1 - buf + (parseHeaderValue .valueFolding (window data (buf + k + 1) n)).length =
          (parseHeaderValue .valueFolding (window data (buf + k + 1) n)).length + 1 := by omega
      have named := parseHeaderValue_name .valueFolding (window data (buf + k + 1) n)
      rw [length]
      have unnamed : sliceOf data none = some [] := rfl
      have points := points_value behind unnamed .valueFolding
        ((parseHeaderValue .valueFolding (window data (buf + k + 1) n)).length + 1)
      exact ⟨points.length, points.status, named ▸ points.name, points.value⟩
    rw [if_neg folded, if_neg folded]
    by_cases inName : (isAlphaNum b || decide (b = 45)) = true
    · rw [if_pos inName, if_pos inName, ← window_concat first]
      exact ih (by omega)
    rw [if_neg inName, if_neg inName]
    by_cases colon : b = 58
    · rw [if_pos colon, if_pos colon, parseHeaderLoop_value (Or.inl rfl) behind (by omega) (Nat.le_refl _)]
      refine Or.inl ⟨_, _, rfl, rfl, ?_⟩
      have nameLength : (window data buf k).length = k := window_length (by omega)
      have length : buf + k + 1 - buf + (parseHeaderValue .value (window data (buf + k + 1) n)).length =
          (window data buf k).length + 1 + (parseHeaderValue .value (window data (buf + k + 1) n)).length := by
        omega
      have named : sliceOf data (some (buf, buf + k - buf)) = some (window data buf k) := by
        rw [Nat.add_sub_cancel_left]
        exact slice_eq (by omega)
      rw [length]
      exact points_value behind named _ _
    · rw [if_neg colon, if_neg colon]
      exact Or.inr ⟨rfl, rfl⟩

/-- `parseHeader` reads the field at the pointer. -/
theorem parseHeader_eq (inside : p + n ≤ data.length) (status : HeaderState) :
    (∃ pointers line, parseHeader data p n status = some (some pointers) ∧
      Mhtml.parseHeader (window data p n) status = some line ∧ pointers.Points data line) ∨
    parseHeader data p n status = some none ∧ Mhtml.parseHeader (window data p n) status = none := by
  have value (isValue : status = .value ∨ status = .valueFolding) :
      ∃ pointers, parseHeader data p n status = some (some pointers) ∧
        pointers.Points data (parseHeaderValue status (window data p n)) := by
    refine ⟨_, parseHeaderLoop_value isValue inside (Nat.le_refl p) (Nat.le_refl p), ?_⟩
    have unnamed : sliceOf data none = some [] := rfl
    have points := points_value inside unnamed status (parseHeaderValue status (window data p n)).length
    simp only [Nat.sub_self, Nat.zero_add] at points ⊢
    exact ⟨rfl, rfl, parseHeaderValue_name status (window data p n) ▸ points.name, points.value⟩
  cases status with
  | name => exact parseHeaderLoop_name (k := 0) inside
  | value =>
    obtain ⟨pointers, read, points⟩ := value (Or.inl rfl)
    exact Or.inl ⟨pointers, _, read, rfl, points⟩
  | valueFolding =>
    obtain ⟨pointers, read, points⟩ := value (Or.inr rfl)
    exact Or.inl ⟨pointers, _, read, rfl, points⟩
  | headerEnd =>
    refine Or.inl ⟨{ status := .headerEnd }, _, ?_, rfl, ⟨rfl, rfl, rfl, rfl⟩⟩
    cases n <;> rfl

end

/-! The boundaries. -/

section
variable {data : List Byte} {p n : Nat} {boundary : Text}

theorem beginsDashes_eq (inside : p + n ≤ data.length) (long : 2 ≤ n) :
    beginsDashes data p = some (decide ((window data p n).getD 0 0 = 45) &&
      decide ((window data p n).getD 1 0 = 45)) := by
  have first := window_getD (i := 0) inside (by omega)
  have second := window_getD (i := 1) inside (by omega)
  rw [Nat.add_zero] at first
  rw [beginsDashes, first, second]
  simp only [Option.bind_eq_bind, Option.bind_some]
  by_cases dash : (window data p n).getD 0 0 = 45
  · rw [if_neg (not_not.mpr dash), decide_eq_true dash, Bool.true_and]
  · rw [if_pos dash, decide_eq_false dash, Bool.false_and]

theorem endsBoundary_eq (inside : p + n ≤ data.length) (long : boundary.length + 2 ≤ n) :
    endsBoundary data boundary p n =
      some (decide (find boundary (widen (window data p n)) = some 0) &&
        decide ((window data p n).getD boundary.length 0 = 45) &&
          decide ((window data p n).getD (boundary.length + 1) 0 = 45)) := by
  have first := window_getD (i := boundary.length) inside (by omega)
  have second := window_getD (i := boundary.length + 1) inside (by omega)
  rw [endsBoundary, slice_eq inside, first, Nat.add_assoc, second]
  simp only [Option.bind_eq_bind, Option.bind_some]
  by_cases found : find boundary (widen (window data p n)) = some 0
  · rw [if_neg (not_not.mpr found), decide_eq_true found, Bool.true_and]
    by_cases dash : (window data p n).getD boundary.length 0 = 45
    · rw [if_neg (not_not.mpr dash), decide_eq_true dash, Bool.true_and]
    · rw [if_pos dash, decide_eq_false dash, Bool.false_and]
  · rw [if_pos found, decide_eq_false found, Bool.false_and, Bool.false_and]

theorem isEndBoundary_eq (inside : p + n ≤ data.length) (small : boundary.length < 2 ^ 31) :
    isEndBoundary data p n boundary = some (Mhtml.isEndBoundary (window data p n) boundary) := by
  have length := window_length inside
  have two : (boundary.length + 2) % 2 ^ 32 = boundary.length + 2 := Nat.mod_eq_of_lt (by omega)
  have four : (boundary.length + 4) % 2 ^ 32 = boundary.length + 4 := Nat.mod_eq_of_lt (by omega)
  unfold isEndBoundary Mhtml.isEndBoundary
  simp only [length, two, four]
  by_cases empty : boundary.isEmpty = true
  · rw [if_pos empty, if_pos empty]
  rw [if_neg empty, if_neg empty]
  by_cases short : n < 2
  · rw [if_pos short, if_pos short]
  rw [if_neg short, if_neg short]
  by_cases less : n - 2 < boundary.length + 2
  · rw [if_pos less, if_pos less]
  rw [if_neg less, if_neg less]
  by_cases bare : n - 2 < boundary.length + 4
  · have front : (window data p n).take (n - 2) = window data p (n - 2) := by
      rw [window_take, Nat.min_eq_left (by omega)]
    have first : (window data p n).getD boundary.length 0 =
        (window data p (n - 2)).getD boundary.length 0 :=
      window_getD_window inside (by omega) (by omega)
    have second : (window data p n).getD (boundary.length + 1) 0 =
        (window data p (n - 2)).getD (boundary.length + 1) 0 :=
      window_getD_window inside (by omega) (by omega)
    rw [if_pos bare, if_pos bare, endsBoundary_eq (by omega) (by omega), front, first, second]
  · have behind : (window data p n).drop 2 = window data (p + 2) (n - 2) := window_drop 2
    have front : (window data (p + 2) (n - 2)).take (n - 2 - 2) = window data (p + 2) (n - 2 - 2) := by
      rw [window_take, Nat.min_eq_left (by omega)]
    have first : (window data (p + 2) (n - 2)).getD boundary.length 0 =
        (window data (p + 2) (n - 2 - 2)).getD boundary.length 0 :=
      window_getD_window (by omega) (by omega) (by omega)
    have second : (window data (p + 2) (n - 2)).getD (boundary.length + 1) 0 =
        (window data (p + 2) (n - 2 - 2)).getD (boundary.length + 1) 0 :=
      window_getD_window (by omega) (by omega) (by omega)
    rw [if_neg bare, if_neg bare, beginsDashes_eq inside (by omega),
      endsBoundary_eq (by omega) (by omega), behind, front, first, second]
    simp only [Option.bind_eq_bind, Option.bind_some]
    split_ifs <;> rfl

theorem isBoundary_eq (inside : p + n ≤ data.length) (small : boundary.length < 2 ^ 31) :
    isBoundary data p n boundary = some (Mhtml.isBoundary (window data p n) boundary) := by
  have length := window_length inside
  have two : (boundary.length + 2) % 2 ^ 32 = boundary.length + 2 := Nat.mod_eq_of_lt (by omega)
  unfold isBoundary Mhtml.isBoundary
  simp only [length, two]
  by_cases empty : boundary.isEmpty = true
  · rw [if_pos empty, if_pos empty]
  rw [if_neg empty, if_neg empty]
  by_cases less : n < boundary.length + 2
  · rw [if_pos less, if_pos less]
  have behind : slice data (p + 2) (n - 2) = some (window data (p + 2) (n - 2)) := slice_eq (by omega)
  rw [if_neg less, if_neg less, beginsDashes_eq inside (by omega), behind, window_drop]
  simp only [Option.bind_eq_bind, Option.bind_some]
  split_ifs <;> rfl

end

/-! The loop. -/

/-- The state of the reader of lists. -/
def Reader.view (data : List Byte) (r : Reader) : ParseState :=
  { r.state with rest := window data r.p r.restLen }

/-- What is left is in the buffer, and an `int`; so is the length of the boundary. -/
structure Reader.Inside (data : List Byte) (r : Reader) : Prop where
  rest : r.p + r.restLen ≤ data.length
  int : r.restLen < 2 ^ 31
  boundary : (r.state.boundary.getD []).length < 2 ^ 31

theorem restLength_le (size : Nat) : restLength size ≤ size ∧ restLength size < 2 ^ 31 := by
  unfold restLength
  rw [Int.bmod_def]
  split_ifs <;> omega

theorem start_inside (data : List Byte) : (Reader.start data).Inside data := by
  obtain ⟨le, int⟩ := restLength_le data.length
  have none : ((Reader.start data).state.boundary.getD []).length = 0 := rfl
  have zero : (Reader.start data).p = 0 := rfl
  have rest : (Reader.start data).restLen = restLength data.length := by rw [Reader.start]
  exact ⟨by rw [zero, rest, Nat.zero_add]; exact le, by rw [rest]; exact int,
    by rw [none]; exact Nat.two_pow_pos 31⟩

theorem getQuotationString_length (sValue : Text) :
    ((getQuotationString sValue).getD []).length ≤ sValue.length := by
  cases quoted : getQuotationString sValue with
  | none => exact Nat.zero_le _
  | some inner => exact (getQuotationString_within quoted).length_le

theorem readHeaderField_boundary (sName sValue : Text) (s : ParseState) :
    (readHeaderField sName sValue s).boundary = s.boundary ∨
      (readHeaderField sName sValue s).boundary = getQuotationString sValue := by
  unfold readHeaderField getHeaderInfo
  split_ifs <;> first | exact Or.inl rfl | exact Or.inr rfl

theorem readHeaderField_view (sName sValue : Text) (s : ParseState) (rest : List Byte) :
    readHeaderField sName sValue { s with rest } = { readHeaderField sName sValue s with rest } := by
  unfold readHeaderField getHeaderInfo
  split_ifs <;> rfl

theorem appendLine_view (line : List Byte) (s : ParseState) (rest : List Byte) :
    appendLine line { s with rest } = { appendLine line s with rest } := by
  unfold appendLine
  split_ifs <;> rfl

theorem finishResource_view (parsedURL : Text → Text) (s : ParseState) (rest : List Byte) :
    finishResource parsedURL { s with rest } = { finishResource parsedURL s with rest } := by
  unfold finishResource addRawData
  split_ifs <;> rfl

theorem appendLine_boundary (line : List Byte) (s : ParseState) :
    (appendLine line s).boundary = s.boundary := by
  unfold appendLine
  split_ifs <;> rfl

theorem finishResource_boundary (parsedURL : Text → Text) (s : ParseState) :
    (finishResource parsedURL s).boundary = s.boundary := by
  unfold finishResource addRawData
  split_ifs <;> rfl

theorem parseHeaderValue_value_le (status : HeaderState) (text : List Byte) :
    (parseHeaderValue status text).value.length ≤ (parseHeaderValue status text).length := by
  induction text with
  | nil => exact Nat.le_refl 0
  | cons b rest ih =>
    rw [parseHeaderValue]
    split_ifs with ended
    · exact Nat.zero_le _
    · exact Nat.succ_le_succ ih

theorem parseHeaderName_value_le {name buf : List Byte} {line : HeaderLine}
    (found : parseHeaderName name buf = some line) : line.value.length ≤ line.length := by
  induction buf generalizing name with
  | nil =>
    obtain rfl := Option.some.inj found
    exact Nat.le_refl 0
  | cons b rest ih =>
    have folded := parseHeaderValue_value_le .valueFolding rest
    have value := parseHeaderValue_value_le .value rest
    rw [parseHeaderName] at found
    split_ifs at found
    · obtain rfl := Option.some.inj found
      exact Nat.zero_le _
    · obtain rfl := Option.some.inj found
      exact Nat.le_succ_of_le folded
    · exact ih found
    · obtain rfl := Option.some.inj found
      exact Nat.le_trans value (Nat.le_add_left _ _)

/-- The value is a part of the field. -/
theorem parseHeader_value_le {buf : List Byte} {status : HeaderState} {line : HeaderLine}
    (found : Mhtml.parseHeader buf status = some line) : line.value.length ≤ line.length := by
  cases status with
  | name => exact parseHeaderName_value_le found
  | value =>
    obtain rfl := Option.some.inj found
    exact parseHeaderValue_value_le _ buf
  | valueFolding =>
    obtain rfl := Option.some.inj found
    exact parseHeaderValue_value_le _ buf
  | headerEnd =>
    obtain rfl := Option.some.inj found
    exact Nat.le_refl 0

section
variable (parsedURL : Text → Text) {data : List Byte} {r : Reader} (inside : r.Inside data)
include inside

/-- The line of content at the pointer, and whether it is a boundary. -/
theorem contentLine_eq (len : Nat) (taken : len ≤ r.restLen) :
    (do
      let line ← slice data r.p len
      let ends ← isEndBoundary data r.p len (r.state.boundary.getD [])
      let begins ← if ends then some true else isBoundary data r.p len (r.state.boundary.getD [])
      some (len, line, begins)) =
    some (len, (window data r.p r.restLen).take len,
      Mhtml.isEndBoundary ((window data r.p r.restLen).take len) (r.state.boundary.getD []) ||
        Mhtml.isBoundary ((window data r.p r.restLen).take len) (r.state.boundary.getD [])) := by
  have within : r.p + len ≤ data.length := by
    have rest := inside.rest
    omega
  have line : (window data r.p r.restLen).take len = window data r.p len := by
    rw [window_take, Nat.min_eq_left taken]
  rw [line, slice_eq within, isEndBoundary_eq within inside.boundary, isBoundary_eq within inside.boundary]
  simp only [Option.bind_eq_bind, Option.bind_some]
  cases Mhtml.isEndBoundary (window data r.p len) (r.state.boundary.getD []) <;> rfl

/-- What is left behind some of the bytes is inside. -/
theorem Reader.Inside.advance (len : Nat) (taken : len ≤ r.restLen) {s : ParseState}
    (boundary : (s.boundary.getD []).length < 2 ^ 31) :
    Reader.Inside data { p := r.p + len, restLen := r.restLen - len, state := s } where
  rest := by
    have rest := inside.rest
    change r.p + len + (r.restLen - len) ≤ data.length
    omega
  int := Nat.lt_of_le_of_lt (Nat.sub_le _ _) inside.int
  boundary := boundary

end

/-- A turn reads inside the buffer, and is the turn of the reader of lists. -/
theorem parseTurn_view (parsedURL : Text → Text) {data : List Byte} (r : Reader) (inside : r.Inside data) :
    (∃ r', parseTurn parsedURL data r = .again r' ∧
      Mhtml.parseTurn parsedURL (r.view data) = .again (r'.view data) ∧ r'.Inside data) ∨
    ∃ result' result, parseTurn parsedURL data r = .done result' ∧
      Mhtml.parseTurn parsedURL (r.view data) = .done result ∧
        ∃ verdict, result' = some verdict ∧ verdict.map (Reader.view data) = result := by
  have length := window_length inside.rest
  obtain ⟨p, restLen, status, rest, isMultipart, headerStatus, boundary, type, location, charset, rawData,
    mainResourceType, added⟩ := r
  unfold parseTurn Mhtml.parseTurn Reader.view
  dsimp only at length ⊢
  cases status with
  | parseHeader =>
    dsimp only
    rcases parseHeader_eq inside.rest headerStatus with
      ⟨pointers, line, read, found, points⟩ | ⟨read, found⟩
    · have taken : line.length ≤ restLen := length ▸ parseHeader_length_le found
      rw [read, found]
      dsimp only
      rw [points.length, points.status]
      by_cases zero : line.length = 0
      · rw [if_pos zero, if_pos zero]
        by_cases unnamed : (isMultipart && (boundary.getD []).isEmpty) = true
        · exact Or.inr ⟨_, _, if_pos unnamed, if_pos unnamed, none, rfl, rfl⟩
        · exact Or.inl ⟨_, if_neg unnamed, if_neg unnamed, ⟨inside.rest, inside.int, inside.boundary⟩⟩
      · rw [if_neg zero, if_neg zero, points.name, points.value, window_drop]
        have field := readHeaderField_view (widen line.name) (widen line.value)
          { rest, isMultipart, headerStatus := line.status, boundary, type, location, charset, rawData
            mainResourceType, added } (window data (p + line.length) (restLen - line.length))
        refine Or.inl ⟨_, rfl, congrArg Loop.Turn.again field, inside.advance _ taken ?_⟩
        have short := getQuotationString_length (widen line.value)
        have value := parseHeader_value_le found
        have int : restLen < 2 ^ 31 := inside.int
        rw [widen_length] at short
        rcases readHeaderField_boundary (widen line.name) (widen line.value) _ with kept | quoted
        · rw [kept]
          exact inside.boundary
        · rw [quoted]
          omega
    · rw [read, found]
      exact Or.inr ⟨_, _, rfl, rfl, none, rfl, rfl⟩
  | readContent =>
    have taken := calcLineLength_le (window data p restLen)
    rw [length] at taken
    have line := contentLine_eq inside _ taken
    dsimp only at line
    rw [calcLineLength_eq inside.rest, Option.bind_eq_bind, Option.bind_some, line]
    dsimp only
    generalize Mhtml.calcLineLength (window data p restLen) = len at taken
    by_cases begins : (Mhtml.isEndBoundary ((window data p restLen).take len) (boundary.getD []) ||
      Mhtml.isBoundary ((window data p restLen).take len) (boundary.getD [])) = true
    · rw [if_pos begins, if_pos begins, window_drop]
      exact Or.inl ⟨_, rfl, rfl, inside.advance _ taken inside.boundary⟩
    · rw [if_neg begins, if_neg begins, window_drop]
      have left : (window data (p + len) (restLen - len)).length = restLen - len := window_length (by
        have rest : p + restLen ≤ data.length := inside.rest
        omega)
      have appended := appendLine_view ((window data p restLen).take len)
        { status := .readContent, rest, isMultipart, headerStatus, boundary, type, location, charset
          rawData, mainResourceType, added } (window data p restLen)
      have kept := appendLine_boundary ((window data p restLen).take len)
        { status := .readContent, rest, isMultipart, headerStatus, boundary, type, location, charset
          rawData, mainResourceType, added }
      rw [appended, left]
      by_cases more : 0 < restLen - len
      · rw [if_pos more, if_pos more]
        exact Or.inl ⟨_, rfl, rfl, inside.advance _ taken (by rw [kept]; exact inside.boundary)⟩
      · rw [if_neg more, if_neg more]
        exact Or.inl ⟨_, rfl, rfl, inside.advance _ taken (by dsimp only; rw [kept]; exact inside.boundary)⟩
  | addResource =>
    have finished := finishResource_view parsedURL
      { status := .addResource, rest, isMultipart, headerStatus, boundary, type, location, charset
        rawData, mainResourceType, added } (window data p restLen)
    have kept := finishResource_boundary parsedURL
      { status := .addResource, rest, isMultipart, headerStatus, boundary, type, location, charset
        rawData, mainResourceType, added }
    rw [finished, length]
    clear finished
    generalize finishResource parsedURL _ = s at kept ⊢
    have named : (s.boundary.getD []).length < 2 ^ 31 := by rw [kept]; exact inside.boundary
    by_cases more : 0 < restLen
    · rw [if_pos more, if_pos more]
      exact Or.inl ⟨_, rfl, rfl, ⟨inside.rest, inside.int, named⟩⟩
    · rw [if_neg more, if_neg more]
      by_cases untyped : s.mainResourceType.isNone = true
      · exact Or.inr ⟨_, _, if_pos untyped, if_pos untyped, none, rfl, rfl⟩
      · exact Or.inl ⟨_, if_neg untyped, if_neg untyped, ⟨inside.rest, inside.int, named⟩⟩
  | parseEnd => exact Or.inr ⟨_, _, rfl, rfl, some _, rfl, rfl⟩

/-- On a buffer of any length the reader ends without a read outside it, with the verdict of the reader
of lists on the bytes that its size stands for. -/
theorem parseRawDataRepresentation_bounded (parsedURL : Text → Text) (data : List Byte) :
    ∃ turns verdict,
      Loop.iterate (parseTurn parsedURL data) turns (Reader.start data) = some (some verdict) ∧
        verdict.map (Reader.view data) =
          parseRawDataRepresentation parsedURL (data.take (restLength data.length)) := by
  obtain ⟨turns, result', result, ended', ended, verdict, rfl, same⟩ :=
    Loop.iterate_simulates (parseTurn_shrinks parsedURL) (Reader.view data) (Reader.Inside data)
      (fun (result' : Option (Option Reader)) result => ∃ verdict, result' = some verdict ∧ verdict.map (Reader.view data) = result)
      (parseTurn_view parsedURL) (start_inside data)
  refine ⟨turns, verdict, ended', ?_⟩
  have start : (Reader.start data).view data = { rest := data.take (restLength data.length) } := by
    rw [Reader.start, Reader.view, window, List.drop_zero]
  rw [same, parseRawDataRepresentation, ← start, ended, Option.join_some]

end WkcBrowser.Mhtml.Checked
