import WkcBrowser.Lib.Drain
import WkcBrowser.Wtf.StringImpl

/-! `FormDataStream`, which reads the body of a request for curl. -/

namespace WkcBrowser.Network

open Lib.Delivery Wtf

inductive FormDataElement where
  | data (bytes : List Byte)
  | encodedFile (filename : Text)

/-- The contents of the files there are. -/
abbrev Files := Text → Option (List Byte)

def FormDataElement.contents (files : Files) : FormDataElement → List Byte
  | data bytes => bytes
  | encodedFile filename => (files filename).getD []

structure Upload where
  files : Files
  hasClient : Bool := true
  httpBody : Option (List FormDataElement)

def Upload.elements (upload : Upload) : List FormDataElement := upload.httpBody.getD []

def Upload.body (upload : Upload) : List Byte := upload.elements.flatMap (·.contents upload.files)

structure FormDataStream where
  /-- What is left of the file that is open. -/
  file : Option (List Byte) := none
  formDataElementIndex : Nat := 0
  formDataElementDataOffset : Nat := 0

namespace FormDataStream

/-- `wkcFileFReadPeer`: the bytes of the whole blocks, what is left, and whether the end was met. -/
def fread (left : List Byte) (blockSize numberOfBlocks : Nat) : List Byte × List Byte × Bool :=
  let bytes := left.take (blockSize * numberOfBlocks)
  (bytes.take (bytes.length / blockSize), left.drop (blockSize * numberOfBlocks),
    left.length < blockSize * numberOfBlocks)

theorem fread_one (left : List Byte) (n : Nat) :
    fread left 1 n = (left.take n, left.drop n, decide (left.length < n)) := by
  unfold fread
  rw [Nat.one_mul]
  dsimp only
  rw [Nat.div_one, List.take_length]

variable (upload : Upload)

/-- What is returned are as many bytes as `read` says were sent. -/
def read (blockSize numberOfBlocks : Nat) (stream : FormDataStream) : List Byte × FormDataStream :=
  if !upload.hasClient then ([], stream)
  else if numberOfBlocks = 0 || blockSize > (2 ^ 32 - 1) / numberOfBlocks then ([], stream)
  else
    match upload.elements[stream.formDataElementIndex]? with
    | none => ([], stream)
    | some (.encodedFile filename) =>
      match stream.file.or (upload.files filename) with
      | none => ([], { stream with formDataElementIndex := stream.formDataElementIndex + 1 })
      | some file =>
        let (bytes, left, eof) := fread file blockSize numberOfBlocks
        if eof then
          (bytes, { stream with file := none, formDataElementIndex := stream.formDataElementIndex + 1 })
        else (bytes, { stream with file := some left })
    | some (.data bytes) =>
      let toSend := blockSize * numberOfBlocks
      let elementSize := bytes.length - stream.formDataElementDataOffset
      let sent := if elementSize > toSend then toSend else elementSize
      ((bytes.drop stream.formDataElementDataOffset).take sent,
        if elementSize > sent then
          { stream with formDataElementDataOffset := stream.formDataElementDataOffset + sent }
        else
          { stream with
            formDataElementDataOffset := 0
            formDataElementIndex := stream.formDataElementIndex + 1 })

def hasMoreElements (stream : FormDataStream) : Bool :=
  stream.formDataElementIndex < upload.elements.length

def refresh (stream : FormDataStream) : FormDataStream :=
  { stream with formDataElementIndex := 0, formDataElementDataOffset := 0 }

/-- What is still to be read. -/
def left (stream : FormDataStream) : List Byte :=
  match upload.elements.drop stream.formDataElementIndex with
  | [] => []
  | .data bytes :: rest =>
    bytes.drop stream.formDataElementDataOffset ++ rest.flatMap (·.contents upload.files)
  | .encodedFile filename :: rest =>
    (stream.file.or (upload.files filename)).getD [] ++ rest.flatMap (·.contents upload.files)

/-- A file is only open where it is read, and the offset is only used in byte blocks. -/
structure Reading (stream : FormDataStream) : Prop where
  file : ∀ bytes, upload.elements[stream.formDataElementIndex]? = some (.data bytes) →
    stream.file = none
  offset : ∀ filename, upload.elements[stream.formDataElementIndex]? = some (.encodedFile filename) →
    stream.formDataElementDataOffset = 0

/-- All files of the request exist. -/
def Exist : Prop := ∀ filename, .encodedFile filename ∈ upload.elements → (upload.files filename).isSome = true

/-- The bytes and the elements that are left. -/
def work (stream : FormDataStream) : Nat :=
  (left upload stream).length + (upload.elements.length - stream.formDataElementIndex)

section
variable {upload : Upload} {stream : FormDataStream} {n : Nat}

/-- The contents of the elements behind the one that is read. -/
def behind (upload : Upload) (stream : FormDataStream) : List Byte :=
  (upload.elements.drop (stream.formDataElementIndex + 1)).flatMap (·.contents upload.files)

theorem left_data {bytes : List Byte}
    (element : upload.elements[stream.formDataElementIndex]? = some (.data bytes)) :
    left upload stream = bytes.drop stream.formDataElementDataOffset ++ behind upload stream := by
  obtain ⟨inside, here⟩ := List.getElem?_eq_some_iff.mp element
  rw [left, List.drop_eq_getElem_cons inside, here, behind]

theorem left_file {filename : Text} {file : List Byte}
    (element : upload.elements[stream.formDataElementIndex]? = some (.encodedFile filename))
    (opened : stream.file.or (upload.files filename) = some file) :
    left upload stream = file ++ behind upload stream := by
  obtain ⟨inside, here⟩ := List.getElem?_eq_some_iff.mp element
  rw [left, List.drop_eq_getElem_cons inside, here, behind]
  dsimp only
  rw [opened, Option.getD_some]

/-- At the start of an element all of it is left. -/
theorem left_start (closed : stream.file = none) (start : stream.formDataElementDataOffset = 0) :
    left upload stream =
      (upload.elements.drop stream.formDataElementIndex).flatMap (·.contents upload.files) := by
  unfold left
  cases upload.elements.drop stream.formDataElementIndex with
  | nil => rfl
  | cons element rest =>
    rw [List.flatMap_cons]
    cases element with
    | data bytes =>
      dsimp only
      rw [start, List.drop_zero]
      rfl
    | encodedFile filename =>
      dsimp only
      rw [closed, Option.none_or]
      rfl

section
variable (client : upload.hasClient = true) (positive : 0 < n) (small : n < 2 ^ 32)
include client positive small

theorem read_data {bytes : List Byte}
    (element : upload.elements[stream.formDataElementIndex]? = some (.data bytes)) :
    read upload 1 n stream =
      ((bytes.drop stream.formDataElementDataOffset).take n,
        if n < bytes.length - stream.formDataElementDataOffset then
          { stream with formDataElementDataOffset := stream.formDataElementDataOffset + n }
        else
          { stream with
            formDataElementDataOffset := 0
            formDataElementIndex := stream.formDataElementIndex + 1 }) := by
  have fits : ¬(decide (n = 0) || decide (1 > (2 ^ 32 - 1) / n)) = true := by
    have room : 1 ≤ (2 ^ 32 - 1) / n := (Nat.one_le_div_iff positive).mpr (by omega)
    rw [Bool.or_eq_true, decide_eq_true_eq, decide_eq_true_eq]
    exact fun either => either.elim (Nat.ne_of_gt positive) (Nat.not_lt.mpr room)
  rw [read, client, Bool.not_true, if_neg Bool.false_ne_true, if_neg fits, element]
  dsimp only
  rw [Nat.one_mul]
  by_cases longer : n < bytes.length - stream.formDataElementDataOffset
  · rw [if_pos longer, if_pos longer]
  · have all : (bytes.drop stream.formDataElementDataOffset).length ≤ n := by
      rw [List.length_drop]
      exact Nat.not_lt.mp longer
    rw [if_neg longer, if_neg longer, if_neg (Nat.lt_irrefl _), List.take_of_length_le all,
      List.take_of_length_le (by rw [List.length_drop])]

theorem read_file {filename : Text} {file : List Byte}
    (element : upload.elements[stream.formDataElementIndex]? = some (.encodedFile filename))
    (opened : stream.file.or (upload.files filename) = some file) :
    read upload 1 n stream =
      (file.take n,
        if file.length < n then
          { stream with file := none, formDataElementIndex := stream.formDataElementIndex + 1 }
        else { stream with file := some (file.drop n) }) := by
  have fits : ¬(decide (n = 0) || decide (1 > (2 ^ 32 - 1) / n)) = true := by
    have room : 1 ≤ (2 ^ 32 - 1) / n := (Nat.one_le_div_iff positive).mpr (by omega)
    rw [Bool.or_eq_true, decide_eq_true_eq, decide_eq_true_eq]
    exact fun either => either.elim (Nat.ne_of_gt positive) (Nat.not_lt.mpr room)
  rw [read, client, Bool.not_true, if_neg Bool.false_ne_true, if_neg fits, element]
  dsimp only
  rw [opened]
  dsimp only
  rw [fread_one]
  by_cases short : file.length < n
  · rw [if_pos short, if_pos (decide_eq_true short)]
  · rw [if_neg short, if_neg (by rw [decide_eq_false short]; exact Bool.false_ne_true)]

end

/-- A file that is read is open or exists. -/
theorem Exist.opened (exist : Exist upload) {filename : Text}
    (element : upload.elements[stream.formDataElementIndex]? = some (.encodedFile filename)) :
    ∃ file, stream.file.or (upload.files filename) = some file := by
  obtain ⟨contents, found⟩ := Option.isSome_iff_exists.mp (exist filename (List.mem_of_getElem? element))
  cases stream.file with
  | none => exact ⟨contents, found⟩
  | some file => exact ⟨file, rfl⟩

theorem reading_of_start (closed : stream.file = none) (start : stream.formDataElementDataOffset = 0) :
    Reading upload stream := ⟨fun _ _ => closed, fun _ _ => start⟩

/-- A read goes on in the body, and with each read less is left. -/
theorem source (client : upload.hasClient = true) (exist : Exist upload) (positive : 0 < n)
    (small : n < 2 ^ 32) :
    Source (read upload 1) (hasMoreElements upload) (Reading upload) (left upload) (work upload) n := by
  have step : ∀ stream, Reading upload stream → hasMoreElements upload stream = true →
      Reading upload (read upload 1 n stream).2 ∧
        left upload stream = (read upload 1 n stream).1 ++ left upload (read upload 1 n stream).2 ∧
        work upload (read upload 1 n stream).2 < work upload stream := by
    intro stream reading more
    have inside : stream.formDataElementIndex < upload.elements.length := of_decide_eq_true more
    cases element : upload.elements[stream.formDataElementIndex] with
    | data bytes =>
      have at_ := List.getElem?_eq_some_iff.mpr ⟨inside, element⟩
      have closed := reading.file bytes at_
      rw [read_data client positive small at_, left_data at_]
      dsimp only
      split_ifs with longer
      · have next := @left_data upload
          { stream with formDataElementDataOffset := stream.formDataElementDataOffset + n } bytes at_
        have bytesLeft : (bytes.drop stream.formDataElementDataOffset).drop n =
            bytes.drop (stream.formDataElementDataOffset + n) := List.drop_drop
        refine ⟨⟨fun _ _ => closed, fun filename other => ?_⟩, ?_, ?_⟩
        · cases at_.symm.trans other
        · rw [next, ← bytesLeft, ← List.append_assoc, List.take_append_drop]
          rfl
        · have here := @left_data upload stream bytes at_
          unfold work
          rw [next, here]
          simp only [List.length_append, List.length_drop]
          have same : (behind upload { stream with
              formDataElementDataOffset := stream.formDataElementDataOffset + n }).length =
                (behind upload stream).length := rfl
          omega
      · have all : (bytes.drop stream.formDataElementDataOffset).length ≤ n := by
          rw [List.length_drop]
          exact Nat.not_lt.mp longer
        have next := @left_start upload
          { stream with
            formDataElementDataOffset := 0
            formDataElementIndex := stream.formDataElementIndex + 1 } closed rfl
        refine ⟨reading_of_start closed rfl, ?_, ?_⟩
        · rw [next, List.take_of_length_le all]
          rfl
        · have here := @left_data upload stream bytes at_
          unfold work
          rw [next, here, List.length_append]
          have same : (behind upload stream).length =
              ((upload.elements.drop (stream.formDataElementIndex + 1)).flatMap
                (·.contents upload.files)).length := rfl
          dsimp only
          omega
    | encodedFile filename =>
      have at_ := List.getElem?_eq_some_iff.mpr ⟨inside, element⟩
      have start := reading.offset filename at_
      obtain ⟨file, opened⟩ := exist.opened at_
      rw [read_file client positive small at_ opened, left_file at_ opened]
      dsimp only
      split_ifs with short
      · have next := @left_start upload
          { stream with file := none, formDataElementIndex := stream.formDataElementIndex + 1 } rfl start
        refine ⟨reading_of_start rfl start, ?_, ?_⟩
        · rw [next, List.take_of_length_le (Nat.le_of_lt short)]
          rfl
        · have here := @left_file upload stream filename file at_ opened
          unfold work
          rw [next, here, List.length_append]
          have same : (behind upload stream).length =
              ((upload.elements.drop (stream.formDataElementIndex + 1)).flatMap
                (·.contents upload.files)).length := rfl
          dsimp only
          omega
      · have next := @left_file upload { stream with file := some (file.drop n) } filename (file.drop n) at_ rfl
        refine ⟨⟨fun bytes other => ?_, fun _ _ => start⟩, ?_, ?_⟩
        · cases at_.symm.trans other
        · rw [next, ← List.append_assoc, List.take_append_drop]
          rfl
        · have here := @left_file upload stream filename file at_ opened
          unfold work
          rw [next, here]
          simp only [List.length_append, List.length_drop]
          have same : (behind upload { stream with file := some (file.drop n) }).length =
              (behind upload stream).length := rfl
          omega
  exact
    { kept := fun stream reading more => (step stream reading more).1
      split := fun stream reading more => (step stream reading more).2.1
      falls := fun stream reading more => (step stream reading more).2.2 }

theorem left_of_not_more (stream : FormDataStream) (ended : hasMoreElements upload stream = false) :
    left upload stream = [] := by
  have outside : upload.elements.length ≤ stream.formDataElementIndex :=
    Nat.not_lt.mp (of_decide_eq_false ended)
  rw [left, List.drop_of_length_le outside]

/-- From the start of the body all of it is delivered. -/
theorem delivers_body (client : upload.hasClient = true) (exist : Exist upload) {sizes : Nat → Nat}
    (positive : ∀ i, 0 < sizes i ∧ sizes i < 2 ^ 32) (closed : stream.file = none)
    (index : stream.formDataElementIndex = 0) (start : stream.formDataElementDataOffset = 0) :
    Delivers (read upload 1) (hasMoreElements upload) sizes stream upload.body := by
  have all : left upload stream = upload.body := by
    rw [left_start closed start, index, List.drop_zero]
    rfl
  rw [← all]
  exact Source.delivers (fun i => source client exist (positive i).1 (positive i).2)
    left_of_not_more (reading_of_start closed start)

end

/-- Reads go on until one of them returns nothing. -/
def UntilZero (upload : Upload) (sizes : Nat → Nat) (stream : FormDataStream) (whole : List Byte) : Prop :=
  ∃ n, (∀ m < n, (read upload 1 (sizes m) (reads (read upload 1) sizes m stream).2).1 ≠ []) ∧
    (read upload 1 (sizes n) (reads (read upload 1) sizes n stream).2).1 = [] ∧
    (reads (read upload 1) sizes n stream).1 = whole

end FormDataStream

open FormDataStream

/-- While there are more elements the reads return the body, and after `refresh` they return it again
when no file was open. -/
theorem reads_deliver (upload : Upload) (client : upload.hasClient = true) (exist : Exist upload)
    (sizes : Nat → Nat) (positive : ∀ i, 0 < sizes i ∧ sizes i < 2 ^ 32) :
    Delivers (read upload 1) (hasMoreElements upload) sizes {} upload.body ∧
    ∀ n, (reads (read upload 1) sizes n {}).2.file = none →
      ∀ later : Nat → Nat, (∀ i, 0 < later i ∧ later i < 2 ^ 32) →
        Delivers (read upload 1) (hasMoreElements upload) later
          (refresh (reads (read upload 1) sizes n {}).2) upload.body :=
  ⟨delivers_body client exist positive rfl rfl rfl, fun _ closed _ positive =>
    delivers_body client exist positive closed rfl rfl⟩

/-- A file and a byte block that are read in pieces of two bytes. -/
def fileThenData : Upload where
  files := fun _ => some [1, 2]
  httpBody := some [.encodedFile [0x66], .data [3]]

theorem reads_deliver_fileThenData :
    Delivers (read fileThenData 1) (hasMoreElements fileThenData) (fun _ => 2) {} [1, 2, 3] ∧
    Delivers (read fileThenData 1) (hasMoreElements fileThenData) (fun _ => 2)
      (refresh (reads (read fileThenData 1) (fun _ => 2) 2 {}).2) [1, 2, 3] := by
  have positive : ∀ i : Nat, 0 < (fun _ : Nat => 2) i ∧ (fun _ : Nat => 2) i < 2 ^ 32 :=
    fun _ => ⟨Nat.two_pos, (by decide : (2 : Nat) < 2 ^ 32)⟩
  have delivers := reads_deliver fileThenData rfl (fun _ _ => rfl) (fun _ => 2) positive
  exact ⟨delivers.1, delivers.2 2 rfl (fun _ => 2) positive⟩

/-- A read of an empty byte block returns nothing before the end, and after `refresh` in a file the rest of
that file is read. -/
theorem not_untilZero :
    (¬∀ upload : Upload, upload.hasClient = true → Exist upload → ∀ sizes : Nat → Nat,
      (∀ i, 0 < sizes i ∧ sizes i < 2 ^ 32) → UntilZero upload sizes {} upload.body) ∧
    ¬∀ upload : Upload, upload.hasClient = true → Exist upload → ∀ sizes : Nat → Nat,
      (∀ i, 0 < sizes i ∧ sizes i < 2 ^ 32) → ∀ n, ∀ later : Nat → Nat,
        (∀ i, 0 < later i ∧ later i < 2 ^ 32) →
          UntilZero upload later (refresh (reads (read upload 1) sizes n {}).2) upload.body := by
  have positive : ∀ i : Nat, 0 < (fun _ : Nat => 1) i ∧ (fun _ : Nat => 1) i < 2 ^ 32 :=
    fun _ => ⟨Nat.one_pos, (by decide : (1 : Nat) < 2 ^ 32)⟩
  constructor
  · intro all
    let upload : Upload := { files := fun _ => none, httpBody := some [.data [], .data [1]] }
    have exist : Exist upload := fun filename listed => by simp [upload, Upload.elements] at listed
    obtain ⟨n, before, -, whole⟩ := all upload rfl exist (fun _ => 1) positive
    cases n with
    | zero => exact absurd whole (by decide)
    | succ n => exact before 0 (Nat.succ_pos n) (by decide)
  · intro all
    let upload : Upload := { files := fun _ => some [1, 2], httpBody := some [.encodedFile [0x66]] }
    obtain ⟨n, before, ended, whole⟩ :=
      all upload rfl (fun _ _ => rfl) (fun _ => 1) positive 1 (fun _ => 1) positive
    match n with
    | 0 => exact absurd ended (by decide)
    | 1 => exact absurd whole (by decide)
    | n + 2 => exact before 1 (by omega) (by decide)

end WkcBrowser.Network
