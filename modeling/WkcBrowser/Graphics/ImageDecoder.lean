import WkcBrowser.Buffer.Appending

/-! `ImageDecoder::create` of the WKC port, which tells the kind of an image from the first run of its buffer. -/

namespace WkcBrowser.Graphics

open Wtf Buffer

/-- The decoders that `create` makes. -/
inductive DecoderKind where
  | gif
  | png
  | jpeg
  | bmp
  | ico
deriving DecidableEq

def gifMark : List Byte := ascii "GIF8"
def pngMark : List Byte := [0x89, 0x50, 0x4E, 0x47]
def jpegMark : List Byte := [0xFF, 0xD8, 0xFF]
def bmpMark : List Byte := ascii "BM"
def icoMark : List Byte := [0, 0, 1, 0]
def curMark : List Byte := [0, 0, 2, 0]

def marks : List (List Byte × DecoderKind) :=
  [(gifMark, .gif), (pngMark, .png), (jpegMark, .jpeg), (bmpMark, .bmp), (icoMark, .ico), (curMark, .ico)]

/-- The kind that the leading bytes stand for. -/
def kindOf (bytes : List Byte) : Option DecoderKind :=
  if bytes.length < 4 then none
  else (marks.find? fun mark => mark.1.isPrefixOf bytes).map Prod.snd

/-- `strncmp` and the chains of tests read up to the first difference. `none` stands for a read behind the
run. -/
def begins : List Byte → List Cell → Option Bool
  | [], _ => some true
  | c :: mark, some b :: run => if b = c then begins mark run else some false
  | _ :: _, _ => none

/-- `memcmp` reads all. -/
def memcmpEqual (mark : List Byte) (run : List Cell) : Option Bool :=
  if run.length < mark.length then none else some (run.take mark.length = mark.map some)

/-- The tests of `create`, in their order. -/
def testsOf (contents : List Cell) : List (Option Bool × DecoderKind) :=
  [(begins gifMark contents, .gif), (begins pngMark contents, .png),
    (begins jpegMark contents, .jpeg), (begins bmpMark contents, .bmp),
    (memcmpEqual icoMark contents, .ico), (memcmpEqual curMark contents, .ico)]

/-- The first test that holds; `none` when one cannot be made. -/
def firstOf : List (Option Bool × DecoderKind) → Option (Option DecoderKind)
  | [] => some none
  | (test, kind) :: tests => do if ← test then some (some kind) else firstOf tests

/-- `none` when bytes behind the run are read, and inside it for no decoder. The size is taken for an `int`. -/
def create (data : SharedBuffer) : Option (Option DecoderKind) :=
  if data.m_size < 4 ∨ 2 ^ 31 ≤ data.m_size then some none
  else
    firstOf (testsOf (data.getSomeData 0))

/-- The first run of the buffer tells the kind. -/
def Telling (data : SharedBuffer) (bytes : List Byte) : Prop :=
  bytes.length < 4 ∨ (2 ^ 31 ≤ bytes.length ∧ kindOf bytes = none) ∨
    (bytes.length < 2 ^ 31 ∧ (4 ≤ (data.getSomeData 0).length ∨
      bmpMark.map some <+: data.getSomeData 0 ∨ data.getSomeData 0 = jpegMark.map some))

section
variable {run bytes mark : List Byte} {kind : DecoderKind} {tests : List (Option Bool × DecoderKind)}

theorem firstOf_some (test : Bool) : firstOf ((some test, kind) :: tests) =
    if test then some (some kind) else firstOf tests := rfl

theorem firstOf_find (marks : List (List Byte × DecoderKind)) :
    firstOf (marks.map fun mark => (some (mark.1.isPrefixOf bytes), mark.2)) =
      some ((marks.find? fun mark => mark.1.isPrefixOf bytes).map Prod.snd) := by
  induction marks with
  | nil => rfl
  | cons mark marks ih =>
    rw [List.map_cons, firstOf_some, ih, List.find?_cons]
    cases mark.1.isPrefixOf bytes <;> rfl

theorem begins_of_long (long : mark.length ≤ run.length) :
    begins mark (run.map some) = some (mark.isPrefixOf run) := by
  induction mark generalizing run with
  | nil => simp [begins]
  | cons c mark ih =>
    cases run with
    | nil => cases long
    | cons b run =>
      rw [List.map_cons, begins, List.isPrefixOf_cons_cons]
      by_cases same : b = c
      · rw [if_pos same, ih (Nat.le_of_succ_le_succ long), same, beq_self_eq_true, Bool.true_and]
      · rw [if_neg same, beq_false_of_ne (Ne.symm same), Bool.false_and]

/-- A mark that is longer than the run is not found. -/
theorem begins_of_short (short : run.length < mark.length) :
    begins mark (run.map some) = none ∨ begins mark (run.map some) = some false := by
  induction mark generalizing run with
  | nil => cases short
  | cons c mark ih =>
    cases run with
    | nil => exact .inl rfl
    | cons b run =>
      rw [List.map_cons, begins]
      by_cases same : b = c
      · rw [if_pos same]
        exact ih (Nat.lt_of_succ_lt_succ short)
      · exact .inr (if_neg same)

theorem memcmpEqual_of_long (long : mark.length ≤ run.length) :
    memcmpEqual mark (run.map some) = some (mark.isPrefixOf run) := by
  rw [memcmpEqual, if_neg (by rw [List.length_map]; omega), ← List.map_take]
  congr 1
  rw [Bool.eq_iff_iff, decide_eq_true_eq, List.isPrefixOf_iff_prefix, List.prefix_iff_eq_take]
  constructor
  · exact fun same => (List.map_injective_iff.mpr (Option.some_injective _) same).symm
  · exact fun same => congrArg _ same.symm

/-- What a run has of a mark the whole has, when the run is as long as the mark. -/
theorem isPrefixOf_of_long (front : run <+: bytes) (long : mark.length ≤ run.length) :
    mark.isPrefixOf run = mark.isPrefixOf bytes := by
  rw [Bool.eq_iff_iff, List.isPrefixOf_iff_prefix, List.isPrefixOf_iff_prefix]
  exact ⟨fun part => part.trans front, fun part => List.prefix_of_prefix_length_le part front long⟩

theorem firstOf_of_long (front : run <+: bytes) (long : 4 ≤ run.length) :
    firstOf (testsOf (run.map some)) = some (kindOf bytes) := by
  have found {mark : List Byte} (short : mark.length ≤ 4) :
      begins mark (run.map some) = some (mark.isPrefixOf bytes) := by
    rw [begins_of_long (Nat.le_trans short long), isPrefixOf_of_long front (Nat.le_trans short long)]
  have equal {mark : List Byte} (short : mark.length ≤ 4) :
      memcmpEqual mark (run.map some) = some (mark.isPrefixOf bytes) := by
    rw [memcmpEqual_of_long (Nat.le_trans short long), isPrefixOf_of_long front (Nat.le_trans short long)]
  have whole := front.length_le
  rw [testsOf, found (by decide), found (by decide), found (by decide), found (by decide),
    equal (by decide), equal (by decide), kindOf, if_neg (by omega)]
  exact firstOf_find marks

/-- The tests of a run of less than four bytes end within it only at the mark of a BMP or a JPEG. -/
theorem firstOf_of_short (some_byte : run ≠ []) (short : run.length < 4) :
    firstOf (testsOf (run.map some)) =
      if bmpMark.isPrefixOf run then some (some .bmp)
      else if run = jpegMark then some (some .jpeg) else none := by
  have nothing (kind : DecoderKind) (tests : List (Option Bool × DecoderKind)) (mark : List Byte)
      (four : mark.length = 4) : firstOf ((memcmpEqual mark (run.map some), kind) :: tests) = none := by
    have outside : memcmpEqual mark (run.map some) = none := by
      rw [memcmpEqual, if_pos (by rw [List.length_map, four]; exact short)]
    rw [outside]
    rfl
  by_cases bmp : bmpMark.isPrefixOf run = true
  · obtain ⟨rest, rfl⟩ := List.isPrefixOf_iff_prefix.mp bmp
    rw [if_pos bmp]
    rfl
  · rw [if_neg bmp]
    by_cases jpeg : run = jpegMark
    · rw [if_pos jpeg, jpeg]
      decide
    · rw [if_neg jpeg]
      have longMark {mark : List Byte} (four : mark.length = 4) :
          begins mark (run.map some) = none ∨ begins mark (run.map some) = some false :=
        begins_of_short (by rw [four]; exact short)
      have noJpeg : begins jpegMark (run.map some) = none ∨ begins jpegMark (run.map some) = some false := by
        by_cases three : run.length < 3
        · exact begins_of_short three
        · rw [begins_of_long (Nat.not_lt.mp three)]
          refine .inr (congrArg some (Bool.eq_false_iff.mpr fun found => ?_))
          have same := (List.isPrefixOf_iff_prefix.mp found).eq_of_length (by
            show 3 = run.length
            omega)
          exact jpeg same.symm
      have noBmp : begins bmpMark (run.map some) = none ∨ begins bmpMark (run.map some) = some false := by
        by_cases one : run.length < 2
        · exact begins_of_short one
        · rw [begins_of_long (Nat.not_lt.mp one)]
          exact .inr (congrArg some (Bool.eq_false_iff.mpr bmp))
      rw [testsOf]
      rcases @longMark gifMark rfl with none₁ | next₁
      · rw [none₁]
        rfl
      rcases @longMark pngMark rfl with none₂ | next₂
      · rw [next₁, none₂]
        rfl
      rcases noJpeg with none₃ | next₃
      · rw [next₁, next₂, none₃]
        rfl
      rcases noBmp with none₄ | next₄
      · rw [next₁, next₂, next₃, none₄]
        rfl
      rw [next₁, next₂, next₃, next₄]
      exact nothing _ _ _ rfl

theorem map_some_inj {a b : List Byte} : a.map some = b.map some ↔ a = b :=
  ⟨fun same => List.map_injective_iff.mpr (Option.some_injective _) same, congrArg _⟩

theorem begins_take (mark : List Byte) (run : List Cell) {n : Nat} (short : mark.length ≤ n) :
    begins mark (run.take n) = begins mark run := by
  induction mark generalizing run n with
  | nil => simp [begins]
  | cons c mark ih =>
    obtain ⟨n, rfl⟩ : ∃ m, n = m + 1 := ⟨n - 1, by simp only [List.length_cons] at short; omega⟩
    cases run with
    | nil => rfl
    | cons cell run =>
      cases cell with
      | none => rfl
      | some b =>
        rw [List.take_succ_cons, begins, begins, ih run (Nat.le_of_succ_le_succ short)]

/-- No test reads behind four bytes. -/
theorem testsOf_take (run : List Cell) : testsOf (run.take 4) = testsOf run := by
  have equal (mark : List Byte) (four : mark.length = 4) :
      memcmpEqual mark (run.take 4) = memcmpEqual mark run := by
    have same : (run.take 4).length < 4 ↔ run.length < 4 := by
      rw [List.length_take]
      omega
    simp only [memcmpEqual, four, same, List.take_take, Nat.min_self]
  rw [testsOf, begins_take _ _ (by decide), begins_take _ _ (by decide), begins_take _ _ (by decide),
    begins_take _ _ (by decide), equal _ rfl, equal _ rfl]
  rfl

/-- A buffer whose first run begins as its bytes do. -/
theorem create_iff {data : SharedBuffer} (size : data.m_size = bytes.length)
    (begun : bytes ≠ [] → ∃ part ≠ [], part <+: bytes ∧ (data.getSomeData 0).take 4 = part.map some) :
    create data = some (kindOf bytes) ↔ Telling data bytes := by
  unfold create Telling
  rw [size]
  by_cases small : bytes.length < 4
  · rw [if_pos (.inl small), kindOf, if_pos small]
    exact iff_of_true rfl (.inl small)
  by_cases large : 2 ^ 31 ≤ bytes.length
  · rw [if_pos (.inr large)]
    simp only [small, large, false_or, true_and, Nat.not_lt.mpr large, false_and, or_false,
      Option.some.injEq]
    exact eq_comm
  obtain ⟨part, some_byte, front, run⟩ := begun (by
    rintro rfl
    exact small (by decide))
  have lengths := congrArg List.length run
  rw [List.length_take, List.length_map] at lengths
  have bmp_iff : bmpMark.map some <+: data.getSomeData 0 ↔ bmpMark.isPrefixOf part = true := by
    have within : bmpMark.map some <+: data.getSomeData 0 ↔ bmpMark.map some <+: part.map some := by
      rw [← run, List.prefix_take_iff]
      exact (and_iff_left (by decide)).symm
    rw [within, List.isPrefixOf_iff_prefix, List.prefix_iff_eq_take, ← List.map_take, List.length_map,
      map_some_inj, ← List.prefix_iff_eq_take]
  have jpeg_iff : data.getSomeData 0 = jpegMark.map some ↔ part = jpegMark := by
    rw [← map_some_inj, ← run]
    constructor
    · intro same
      rw [same]
      rfl
    · intro same
      have three : min 4 (data.getSomeData 0).length = 3 := by
        rw [← List.length_take, same]
        rfl
      rwa [List.take_of_length_le (by omega)] at same
  rw [if_neg (by omega), ← testsOf_take, run, bmp_iff, jpeg_iff]
  simp only [small, large, false_or, false_and, Nat.not_le.mp large, true_and]
  by_cases long : 4 ≤ part.length
  · exact iff_of_true (firstOf_of_long front long) (.inl (by omega))
  · have four : ¬4 ≤ (data.getSomeData 0).length := by omega
    rw [firstOf_of_short some_byte (Nat.not_le.mp long)]
    have kind {mark : List Byte} {kind : DecoderKind} (begun : mark <+: part)
        (found : ∀ rest, (marks.find? fun entry => entry.1.isPrefixOf (mark ++ rest)).map Prod.snd = some kind) :
        kindOf bytes = some kind := by
      rw [kindOf, if_neg small]
      obtain ⟨rest, rfl⟩ := begun.trans front
      exact found rest
    split_ifs with bmp jpeg
    · rw [kind (List.isPrefixOf_iff_prefix.mp bmp) fun _ => rfl]
      exact iff_of_true rfl (.inr (.inl bmp))
    · rw [kind (jpeg ▸ List.prefix_refl _ : jpegMark <+: part) fun _ => rfl]
      exact iff_of_true rfl (.inr (.inr jpeg))
    · refine iff_of_false (by rintro ⟨⟩) ?_
      rintro (told | is_bmp | is_jpeg)
      · exact four told
      · exact bmp is_bmp
      · exact jpeg is_jpeg

/-- What is done with a buffer: bytes come, or `buffer()` and `data()` flatten it. -/
inductive Arrival where
  | append (data : List Byte)
  | merge

def arrive (b : SharedBuffer) : Arrival → SharedBuffer
  | .append data => b.append data
  | .merge => b.buffer

def contentsOf (arrivals : List Arrival) : List Byte :=
  arrivals.flatMap fun
    | .append data => data
    | .merge => []

/-- Where the first four bytes are: in the vector; or all bytes are there; or the vector has some of the four and
the first segment the others. -/
inductive Front (b : SharedBuffer) (bytes : List Byte) : Prop where
  | long (four : 4 ≤ bytes.length) (first : b.m_buffer.take 4 = (bytes.take 4).map some)
  | flat (all : b.m_buffer = bytes.map some) (no_segment : b.m_segments = [])
  | split (before behind : List Byte) (segment : Segment) (rest : List Segment) (few : before.length < 4)
      (joined : bytes = before ++ behind) (vector : b.m_buffer = before.map some)
      (segments : b.m_segments = segment :: rest) (some_cells : 4 ≤ segment.length)
      (first : segment.take 4 = (behind.take 4).map some) (many : segmentSize < bytes.length)
      (one : rest = [] → behind.length ≤ segmentSize)

section
variable {b : SharedBuffer} {data : List Byte}

theorem append_of_small (size : b.m_size = bytes.length) (small : bytes.length + data.length ≤ segmentSize) :
    b.append data = { b with
      m_size := bytes.length + data.length
      m_buffer := b.m_buffer ++ data.map some } := by
  have range : bytes.length + data.length < 2 ^ 32 := Nat.lt_of_le_of_lt small (by decide)
  rw [SharedBuffer.append, size, Nat.mod_eq_of_lt range]
  exact if_pos small

/-- To the segments. -/
theorem append_of_large (size : b.m_size = bytes.length) (range : bytes.length + data.length < 2 ^ 32)
    (large : segmentSize < bytes.length + data.length) {offset : Nat}
    (place : offsetInSegment (unsignedSub bytes.length b.m_buffer.length) = offset) :
    b.append data = { b with
      m_size := bytes.length + data.length
      m_segments :=
        fillLast (if offset = 0 then b.m_segments ++ [allocateSegment] else b.m_segments) offset
            (data.take (min data.length (segmentSize - offset))) ++
          appendSegments (data.drop (min data.length (segmentSize - offset))) } := by
  rw [SharedBuffer.append, size, Nat.mod_eq_of_lt range, place]
  exact if_neg (Nat.not_le.mpr large)

theorem append_size (size : b.m_size = bytes.length) (range : bytes.length + data.length < 2 ^ 32) :
    (b.append data).m_size = (bytes ++ data).length := by
  rw [List.length_append]
  by_cases small : bytes.length + data.length ≤ segmentSize
  · rw [append_of_small size small]
  · rw [append_of_large size range (Nat.not_le.mp small) rfl]

/-- The first segment keeps its first cells when bytes come to the last one. -/
theorem fillLast_cons (segment : Segment) (rest : List Segment) (position : Nat)
    (behind : rest = [] → 4 ≤ position ∧ 4 ≤ segment.length) :
    ∃ segment' rest', fillLast (segment :: rest) position data = segment' :: rest' ∧
      segment'.take 4 = segment.take 4 ∧ (rest' = [] → rest = []) := by
  cases rest with
  | nil =>
    obtain ⟨within, long⟩ := behind rfl
    refine ⟨memcpy segment position data, [], rfl, ?_, fun _ => rfl⟩
    rw [memcpy, List.append_assoc, List.take_append_of_le_length (by rw [List.length_take]; omega),
      List.take_take, Nat.min_eq_left within]
  | cons next rest =>
    obtain ⟨last, is_last⟩ : ∃ last, (next :: rest).getLast? = some last :=
      ⟨_, List.getLast?_eq_some_getLast (by simp)⟩
    refine ⟨segment, (next :: rest).dropLast ++ [memcpy last position data], ?_, rfl, by simp⟩
    rw [fillLast, List.getLast?_cons_cons, is_last]
    rfl

/-- When no further segment is made, all is copied to the one. -/
theorem drop_of_appendSegments {room : Nat} (none : appendSegments (data.drop (min data.length room)) = []) :
    data.length ≤ room := by
  by_contra more
  have some_data : data.drop (min data.length room) ≠ [] := by
    rw [ne_eq, List.drop_eq_nil_iff]
    omega
  rw [appendSegments, if_neg some_data] at none
  cases none

theorem Front.append (front : Front b bytes) (size : b.m_size = bytes.length)
    (range : bytes.length + data.length < 2 ^ 32) : Front (b.append data) (bytes ++ data) := by
  have longer : bytes.length ≤ (bytes ++ data).length := by
    rw [List.length_append]
    omega
  have four_kept (four : 4 ≤ bytes.length) (first : b.m_buffer.take 4 = (bytes.take 4).map some)
      (more : List Cell) : (b.m_buffer ++ more).take 4 = ((bytes ++ data).take 4).map some := by
    have long := congrArg List.length first
    rw [List.length_take, List.length_map, List.length_take] at long
    rw [List.take_append_of_le_length (by omega), List.take_append_of_le_length four, first]
  by_cases small : bytes.length + data.length ≤ segmentSize
  · rw [append_of_small size small]
    cases front with
    | long four first => exact .long (Nat.le_trans four longer) (four_kept four first _)
    | flat all no_segment =>
      refine .flat ?_ no_segment
      rw [List.map_append, ← all]
    | split _ _ _ _ _ _ _ _ _ _ many _ => omega
  have large := Nat.not_le.mp small
  have long_kept (four : 4 ≤ bytes.length) (first : b.m_buffer.take 4 = (bytes.take 4).map some) :
      Front (b.append data) (bytes ++ data) := by
    have kept := four_kept four first []
    rw [List.append_nil] at kept
    rw [append_of_large size range large rfl]
    exact .long (Nat.le_trans four longer) kept
  cases front with
  | long four first => exact long_kept four first
  | flat all no_segment =>
    by_cases four : 4 ≤ bytes.length
    · exact long_kept four (by rw [all, List.map_take])
    · have offset : offsetInSegment (unsignedSub bytes.length b.m_buffer.length) = 0 := by
        rw [all, List.length_map, unsignedSub_eq le_rfl (by omega), Nat.sub_self]
        rfl
      have many : 4 ≤ min data.length segmentSize := by
        rw [segmentSize] at large ⊢
        omega
      rw [append_of_large size range large offset, if_pos rfl, no_segment]
      refine .split bytes data (memcpy allocateSegment 0 (data.take (min data.length segmentSize))) _
        (Nat.not_le.mp four) rfl all rfl ?_ ?_ ?_ ?_
      · rw [memcpy_allocateSegment, List.length_append, List.length_map, List.length_take]
        omega
      · rw [memcpy_allocateSegment, List.take_append_of_le_length, ← List.map_take, List.take_take,
          Nat.min_eq_left many]
        rw [List.length_map, List.length_take]
        omega
      · rwa [List.length_append]
      · intro none
        have copied := drop_of_appendSegments none
        omega
  | split before behind segment rest few joined vector segments some_cells first many one =>
    have length : before.length + behind.length = bytes.length := by rw [joined, List.length_append]
    rw [segmentSize] at many one
    have offset : offsetInSegment (unsignedSub bytes.length b.m_buffer.length) = behind.length % segmentSize := by
      rw [vector, List.length_map, unsignedSub_eq (by omega) (by omega), offsetInSegment_eq]
      congr 1
      omega
    obtain ⟨rest', target, single⟩ : ∃ rest', (if behind.length % segmentSize = 0 then
        b.m_segments ++ [allocateSegment] else b.m_segments) = segment :: rest' ∧
        (rest' = [] → rest = [] ∧ behind.length % segmentSize = behind.length) := by
      rw [segments, segmentSize]
      by_cases whole : behind.length % 0x1000 = 0
      · rw [if_pos whole]
        exact ⟨rest ++ [allocateSegment], rfl, fun none => absurd none (by simp)⟩
      · rw [if_neg whole]
        refine ⟨rest, rfl, fun none => ⟨none, ?_⟩⟩
        have short := one none
        omega
    obtain ⟨segment', rest'', filled, kept, single'⟩ :=
      @fillLast_cons (data.take (min data.length (segmentSize - behind.length % segmentSize))) segment rest'
        (behind.length % segmentSize) fun none => by
          have same := (single none).2
          exact ⟨by omega, some_cells⟩
    rw [append_of_large size range large offset, target, filled]
    refine .split before (behind ++ data) segment' (rest'' ++ _) few ?_ vector rfl ?_ ?_ ?_ ?_
    · rw [joined, List.append_assoc]
    · have lengths := congrArg List.length kept
      rw [List.length_take, List.length_take] at lengths
      omega
    · rw [kept, first, List.take_append_of_le_length (by omega)]
    · exact Nat.lt_of_lt_of_le many longer
    · intro none
      obtain ⟨none', none''⟩ := List.append_eq_nil_iff.mp none
      obtain ⟨none_behind, same⟩ := single (single' none')
      have copied := drop_of_appendSegments none''
      have short := one none_behind
      rw [same] at copied
      rw [List.length_append, segmentSize] at *
      omega

theorem Front.merge (front : Front b bytes) (size : b.m_size = bytes.length) : Front b.buffer bytes := by
  unfold SharedBuffer.buffer
  split_ifs with more
  swap
  · exact front
  rw [size] at more ⊢
  cases front with
  | long four first =>
    refine .long four ?_
    have long := congrArg List.length first
    rw [List.length_take, List.length_map, List.length_take] at long
    rw [List.take_append_of_le_length (by omega), first]
  | flat all no_segment =>
    rw [all, List.length_map] at more
    omega
  | split before behind segment rest few joined vector segments some_cells first many one =>
    have length : before.length + behind.length = bytes.length := by rw [joined, List.length_append]
    rw [segmentSize] at many
    have start : (gather (bytes.length - b.m_buffer.length) b.m_segments).take 4 = (behind.map some).take 4 := by
      rw [segments, gather, vector, List.length_map, List.take_append_of_le_length, List.take_take,
        ← List.map_take, ← first, segmentSize]
      · congr 1
        omega
      · rw [List.length_take, segmentSize]
        omega
    have shorter := congrArg (List.take (4 - before.length)) start
    rw [List.take_take, List.take_take, Nat.min_eq_left (Nat.sub_le ..)] at shorter
    refine .long (by omega) ?_
    show (b.m_buffer ++ gather _ _).take 4 = _
    rw [List.take_append, vector, List.length_map]
    rw [vector, List.length_map] at shorter
    rw [shorter, joined, List.map_take, List.map_append, List.take_append, List.length_map]

theorem getSomeData_vector (positive : 0 < b.m_size) (filled : b.m_buffer ≠ []) :
    b.getSomeData 0 = b.m_buffer := by
  rw [SharedBuffer.getSomeData, if_neg (Nat.not_le.mpr positive), if_pos (List.length_pos_iff.mpr filled)]
  rfl

/-- The first run of a buffer of some bytes begins as the bytes do. -/
theorem Front.some_part (front : Front b bytes) (size : b.m_size = bytes.length) (some_byte : bytes ≠ []) :
    ∃ part ≠ [], part <+: bytes ∧ (b.getSomeData 0).take 4 = part.map some := by
  have positive : 0 < b.m_size := size ▸ List.length_pos_iff.mpr some_byte
  have begins_four : bytes.take 4 ≠ [] := by
    rw [ne_eq, List.take_eq_nil_iff]
    exact not_or_intro (by decide) some_byte
  cases front with
  | long four first =>
    refine ⟨bytes.take 4, begins_four, List.take_prefix .., ?_⟩
    rw [getSomeData_vector positive, first]
    rintro none
    rw [none, List.take_nil, eq_comm, List.map_eq_nil_iff] at first
    exact begins_four first
  | flat all no_segment =>
    refine ⟨bytes.take 4, begins_four, List.take_prefix .., ?_⟩
    rw [getSomeData_vector positive, all, List.map_take]
    rwa [all, ne_eq, List.map_eq_nil_iff]
  | split before behind segment rest few joined vector segments some_cells first many one =>
    by_cases none : before = []
    · refine ⟨bytes.take 4, begins_four, List.take_prefix .., ?_⟩
      rw [none, List.map_nil] at vector
      rw [none, List.nil_append] at joined
      have read : ∃ length ≥ 4, b.getSomeData 0 = segment.take length := by
        rw [SharedBuffer.getSomeData, if_neg (Nat.not_le.mpr positive), size, vector, List.length_nil,
          if_neg (by decide), segments]
        refine ⟨_, ?_, rfl⟩
        rw [segmentSize] at many
        split_ifs
        · omega
        · decide
      obtain ⟨length, enough, read⟩ := read
      rw [read, List.take_take, Nat.min_eq_left enough, first, joined]
    · refine ⟨before, none, joined ▸ List.prefix_append .., ?_⟩
      rw [getSomeData_vector positive (by rwa [vector, ne_eq, List.map_eq_nil_iff]), vector,
        List.take_of_length_le]
      rw [List.length_map]
      omega

theorem foldl_arrive (arrivals : List Arrival) (range : (bytes ++ contentsOf arrivals).length < 2 ^ 32)
    (front : Front b bytes) (size : b.m_size = bytes.length) :
    let b' := arrivals.foldl arrive b
    b'.m_size = (bytes ++ contentsOf arrivals).length ∧ Front b' (bytes ++ contentsOf arrivals) := by
  induction arrivals generalizing b bytes with
  | nil =>
    rw [contentsOf, List.flatMap_nil, List.append_nil]
    exact ⟨size, front⟩
  | cons arrival arrivals ih =>
    cases arrival with
    | append data =>
      have split : bytes ++ contentsOf (.append data :: arrivals) = (bytes ++ data) ++ contentsOf arrivals :=
        (List.append_assoc ..).symm
      rw [split] at range ⊢
      have now : bytes.length + data.length < 2 ^ 32 := by
        rw [List.length_append, List.length_append] at range
        omega
      exact ih range (front.append size now) (append_size size now)
    | merge =>
      have kept : b.buffer.m_size = b.m_size := by
        unfold SharedBuffer.buffer
        split_ifs <;> rfl
      exact ih range (front.merge size) (kept.trans size)

/-- However its bytes come, the kind of an image is told from them and nothing else is read, exactly when the first
run of the buffer tells it. -/
theorem create_tells_iff (arrivals : List Arrival) (range : (contentsOf arrivals).length < 2 ^ 32) :
    create (arrivals.foldl arrive {}) = some (kindOf (contentsOf arrivals)) ↔
      Telling (arrivals.foldl arrive {}) (contentsOf arrivals) := by
  obtain ⟨size, front⟩ := @foldl_arrive [] {} arrivals range (.flat rfl rfl) rfl
  exact create_iff size (front.some_part size)

theorem create_tells_iff_bmp : (contentsOf [.append [0x42], .merge, .append [0x4D, 0, 0]]).length < 2 ^ 32 ∧
    (create ([.append [0x42], .merge, .append [0x4D, 0, 0]].foldl arrive {}) =
        some (kindOf (contentsOf [.append [0x42], .merge, .append [0x4D, 0, 0]])) ↔
      Telling ([.append [0x42], .merge, .append [0x4D, 0, 0]].foldl arrive {})
        (contentsOf [.append [0x42], .merge, .append [0x4D, 0, 0]])) :=
  ⟨by decide, create_tells_iff _ (by decide)⟩

/-- Of a GIF the first byte is alone in the first run when the others go to segments. -/
theorem not_create_tells : ¬∀ arrivals : List Arrival, (contentsOf arrivals).length < 2 ^ 32 →
    create (arrivals.foldl arrive {}) = some (kindOf (contentsOf arrivals)) := by
  intro always
  have length : (ascii "IF89a" ++ List.replicate 4995 0).length = 5000 := by
    rw [List.length_append, List.length_replicate]
    rfl
  have told := always [.append [0x47], .append (ascii "IF89a" ++ List.replicate 4995 0)]
  generalize ascii "IF89a" ++ List.replicate 4995 0 = rest at length told
  have contents : contentsOf [.append [0x47], .append rest] = 0x47 :: rest :=
    congrArg (0x47 :: ·) (List.append_nil rest)
  rw [contents, List.length_cons, length] at told
  have first : Front (SharedBuffer.append {} [0x47]) [0x47] := .flat rfl rfl
  have range : [(0x47 : Byte)].length + rest.length < 2 ^ 32 := by
    rw [length]
    decide
  have size : ((SharedBuffer.append {} [0x47]).append rest).m_size = (0x47 :: rest).length :=
    append_size rfl range
  have vector : ((SharedBuffer.append {} [0x47]).append rest).m_buffer = [some 0x47] := by
    rw [@append_of_large [0x47] _ rest rfl range (by rw [length]; decide) _ rfl]
    rfl
  have run := getSomeData_vector (by rw [size]; exact Nat.succ_pos _) (by rw [vector]; decide)
  have telling := (create_iff size ((first.append rfl range).some_part size)).mp (told (by decide))
  rw [Telling, run, vector, List.length_cons, length] at telling
  rcases telling with few | ⟨many, -⟩ | ⟨-, long | bmp | jpeg⟩
  · exact absurd few (by decide)
  · exact absurd many (by decide)
  · exact absurd long (by decide)
  · exact absurd bmp.length_le (by decide)
  · exact absurd jpeg (by decide)

end

end

end WkcBrowser.Graphics
