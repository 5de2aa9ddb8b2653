import Mathlib.Algebra.Group.Int.Defs
import Mathlib.Algebra.Group.Nat.Defs
import Mathlib.Data.List.Nodup
import Mathlib.Data.List.Perm.Subperm
import WkcBrowser.Lib.Loop

/-! The rows of a GIF frame. An interlaced frame comes in four passes of rows that are 8, 8, 4 and 2
apart, and while it loads each row is shown in place of the ones that are still missing. -/

namespace WkcBrowser.Graphics

open Lib.Loop

structure GIFFrameReader where
  irow : Nat
  ipass : Nat
  height : Nat
  interlaced : Bool
  progressive_display : Bool

/-- What the client is told of a row. -/
structure DecodedRow where
  rowNumber : Int
  repeatCount : Int
  writeTransparentPixels : Bool

namespace GIFFrameReader

/-- An `int` or an unsigned difference, converted to `unsigned`. -/
def unsigned (n : Int) : Nat := (n % 2 ^ 32).toNat

/-- How often a row is shown in a pass. -/
def row_dup (ipass : Nat) : Nat :=
  match ipass with
  | 1 => 7
  | 2 => 3
  | 3 => 1
  | _ => 0

/-- How far up a row is shown in a pass. -/
def row_shift (ipass : Nat) : Nat :=
  match ipass with
  | 1 => 3
  | 2 => 1
  | _ => 0

/-- The first and the last row that are drawn. -/
def drows (gs : GIFFrameReader) : Int × Int :=
  if gs.progressive_display ∧ gs.interlaced ∧ gs.ipass < 4 then
    let drow_start := (gs.irow : Int) - row_shift gs.ipass
    let drow_end := drow_start + row_dup gs.ipass
    let drow_end :=
      if unsigned ((gs.height : Int) - 1 - drow_end) ≤ row_shift gs.ipass then (gs.height : Int) - 1
      else drow_end
    (if drow_start < 0 then 0 else drow_start,
      if gs.height ≤ unsigned drow_end then (gs.height : Int) - 1 else drow_end)
  else (gs.irow, gs.irow)

/-- The next row of the pass, or the first one of the next pass. -/
def nextRow (gs : GIFFrameReader) : GIFFrameReader :=
  let further (stride first : Nat) : GIFFrameReader :=
    let irow := (gs.irow + stride) % 2 ^ 32
    if gs.height ≤ irow then { gs with ipass := gs.ipass + 1, irow := first }
    else { gs with irow := irow }
  match gs.ipass with
  | 1 => further 8 4
  | 2 => further 8 2
  | 3 => further 4 1
  | 4 => further 2 0
  | _ => gs

/-- One turn of the loop that looks for the next row. -/
def search (gs : GIFFrameReader) : Turn GIFFrameReader GIFFrameReader :=
  let gs := gs.nextRow
  if gs.height - 1 < gs.irow then .again gs else .done gs

/-- The loop gets one turn for each pass. Nothing comes of a search that needs more. -/
def advance (gs : GIFFrameReader) : Option GIFFrameReader :=
  if gs.interlaced then iterate search 4 gs
  else some { gs with irow := (gs.irow + 1) % 2 ^ 32 }

def decodedRow (gs : GIFFrameReader) : DecodedRow where
  rowNumber := gs.drows.1
  repeatCount := gs.drows.2 - gs.drows.1 + 1
  writeTransparentPixels := gs.progressive_display && gs.interlaced && decide (1 < gs.ipass)

/-- What `output_row` returns, with the row that is handed to the client, where there is one, and the
reader behind it. The client says whether it could take the row. -/
def output_row (gs : GIFFrameReader) (haveDecodedRow : Option (DecodedRow → Bool)) :
    Option (Bool × Option DecodedRow × GIFFrameReader) :=
  if gs.height ≤ unsigned gs.drows.1 then some (true, none, gs)
  else
    match haveDecodedRow with
    | none => do some (true, none, ← gs.advance)
    | some haveDecodedRow =>
      if haveDecodedRow gs.decodedRow then do some (true, some gs.decodedRow, ← gs.advance)
      else some (false, some gs.decodedRow, gs)

/-- An interlaced frame at its start. -/
def start (height : Nat) (progressive_display : Bool) : GIFFrameReader :=
  ⟨0, 1, height, true, progressive_display⟩

/-- Successive calls, with the rows that were output and those that were handed to the client. -/
def outputRows (gs : GIFFrameReader) :
    List (Option (DecodedRow → Bool)) → Option (List Nat × List DecodedRow × GIFFrameReader)
  | [] => some ([], [], gs)
  | client :: clients => do
    let (taken, handed, gs') ← gs.output_row client
    let (visited, rows, last) ← gs'.outputRows clients
    some ((if taken then [gs.irow] else []) ++ visited, handed.toList ++ rows, last)

/-- The pass that a row belongs to. -/
def passOf (row : Nat) : Nat :=
  if row % 8 = 0 then 1 else if row % 8 = 4 then 2 else if row % 4 = 2 then 3 else 4

/-- A row that comes before another place of the order. -/
def Before (row ipass irow : Nat) : Prop := passOf row < ipass ∨ passOf row = ipass ∧ row < irow

/-- A place of the order that lies directly behind another one. It may lie below the frame. -/
structure Follows (height ipass irow ipass' irow' : Nat) : Prop where
  near : irow' < height + 8
  last : ipass' ≤ 5
  pass : ipass' ≤ 4 → passOf irow' = ipass'
  behind : ipass' = 5 → irow' = 0
  between : ∀ row < height, Before row ipass' irow' ↔ Before row ipass (irow + 1)

theorem passOf_eq_one {row : Nat} : passOf row = 1 ↔ row % 8 = 0 := by
  unfold passOf
  split_ifs <;> omega

theorem passOf_eq_two {row : Nat} : passOf row = 2 ↔ row % 8 = 4 := by
  unfold passOf
  split_ifs <;> omega

theorem passOf_eq_three {row : Nat} : passOf row = 3 ↔ row % 4 = 2 := by
  unfold passOf
  split_ifs <;> omega

theorem passOf_eq_four {row : Nat} : passOf row = 4 ↔ row % 2 = 1 := by
  unfold passOf
  split_ifs <;> omega

theorem passOf_bounds (row : Nat) : 1 ≤ passOf row ∧ passOf row ≤ 4 := by
  unfold passOf
  split_ifs <;> omega

theorem follows_same {height ipass irow stride : Nat}
    (positive : 0 < stride) (pass : passOf (irow + stride) = ipass) (first : ipass ≤ 4)
    (inside : irow + stride < height)
    (apart : ∀ row, passOf row = ipass → irow < row → irow + stride ≤ row) :
    Follows height ipass irow ipass (irow + stride) where
  near := by omega
  last := by omega
  pass _ := pass
  behind beyond := by omega
  between row _ := by
    have rows := apart row
    unfold Before
    omega

theorem follows_next {height ipass irow stride first : Nat} (last : ipass ≤ 4)
    (low : first < 8) (passed : height ≤ irow + stride)
    (pass : ipass + 1 ≤ 4 → passOf first = ipass + 1) (behind : ipass + 1 = 5 → first = 0)
    (apart : ∀ row, passOf row = ipass → irow < row → irow + stride ≤ row)
    (least : ∀ row, passOf row = ipass + 1 → first ≤ row) :
    Follows height ipass irow (ipass + 1) first where
  near := by omega
  last := by omega
  pass := pass
  behind := behind
  between row inside := by
    have rows := apart row
    have others := least row
    unfold Before
    omega

/-- From a row of a pass one turn leads to the place behind it. -/
theorem nextRow_follows (gs : GIFFrameReader) (sixteen : gs.height < 2 ^ 16)
    (near : gs.irow < gs.height + 8) (first : 1 ≤ gs.ipass) (last : gs.ipass ≤ 4)
    (pass : passOf gs.irow = gs.ipass) :
    ∃ ipass irow, gs.nextRow = { gs with ipass := ipass, irow := irow } ∧
      Follows gs.height gs.ipass gs.irow ipass irow ∧
      (ipass = gs.ipass ∧ irow < gs.height ∨ ipass = gs.ipass + 1) := by
  have turn (stride first : Nat) (positive : 0 < stride) (short : stride ≤ 8) (low : first < 8)
      (again : passOf (gs.irow + stride) = gs.ipass)
      (next : gs.ipass + 1 ≤ 4 → passOf first = gs.ipass + 1)
      (behind : gs.ipass + 1 = 5 → first = 0)
      (apart : ∀ row, passOf row = gs.ipass → gs.irow < row → gs.irow + stride ≤ row)
      (least : ∀ row, passOf row = gs.ipass + 1 → first ≤ row)
      (same : gs.nextRow =
        if gs.height ≤ (gs.irow + stride) % 2 ^ 32 then
          { gs with ipass := gs.ipass + 1, irow := first }
        else { gs with irow := (gs.irow + stride) % 2 ^ 32 }) :
      ∃ ipass irow, gs.nextRow = { gs with ipass := ipass, irow := irow } ∧
        Follows gs.height gs.ipass gs.irow ipass irow ∧
        (ipass = gs.ipass ∧ irow < gs.height ∨ ipass = gs.ipass + 1) := by
    rw [Nat.mod_eq_of_lt (by omega)] at same
    by_cases passed : gs.height ≤ gs.irow + stride
    · rw [if_pos passed] at same
      exact ⟨_, _, same, follows_next last low passed next behind apart least, .inr rfl⟩
    · rw [if_neg passed] at same
      exact ⟨_, _, same, follows_same positive again last (by omega) apart, .inl ⟨rfl, by omega⟩⟩
  have passes : gs.ipass = 1 ∨ gs.ipass = 2 ∨ gs.ipass = 3 ∨ gs.ipass = 4 := by omega
  rcases passes with one | one | one | one
  · have here := passOf_eq_one.mp (pass.trans one)
    refine turn 8 4 (by decide) (by decide) (by decide) ?_ ?_ ?_ ?_ ?_ ?_
    · exact (passOf_eq_one.mpr (by omega)).trans one.symm
    · rw [one]
      exact fun _ => by decide
    · omega
    · intro row same behind
      have there := passOf_eq_one.mp (same.trans one)
      omega
    · intro row same
      rw [one] at same
      have there := passOf_eq_two.mp same
      omega
    · simp only [nextRow, one]
  · have here := passOf_eq_two.mp (pass.trans one)
    refine turn 8 2 (by decide) (by decide) (by decide) ?_ ?_ ?_ ?_ ?_ ?_
    · exact (passOf_eq_two.mpr (by omega)).trans one.symm
    · rw [one]
      exact fun _ => by decide
    · omega
    · intro row same behind
      have there := passOf_eq_two.mp (same.trans one)
      omega
    · intro row same
      rw [one] at same
      have there := passOf_eq_three.mp same
      omega
    · simp only [nextRow, one]
  · have here := passOf_eq_three.mp (pass.trans one)
    refine turn 4 1 (by decide) (by decide) (by decide) ?_ ?_ ?_ ?_ ?_ ?_
    · exact (passOf_eq_three.mpr (by omega)).trans one.symm
    · rw [one]
      exact fun _ => by decide
    · omega
    · intro row same behind
      have there := passOf_eq_three.mp (same.trans one)
      omega
    · intro row same
      rw [one] at same
      have there := passOf_eq_four.mp same
      omega
    · simp only [nextRow, one]
  · have here := passOf_eq_four.mp (pass.trans one)
    refine turn 2 0 (by decide) (by decide) (by decide) ?_ ?_ ?_ ?_ ?_ ?_
    · exact (passOf_eq_four.mpr (by omega)).trans one.symm
    · rw [one]
      omega
    · exact fun _ => rfl
    · intro row same behind
      have there := passOf_eq_four.mp (same.trans one)
      omega
    · intro row same
      rw [one] at same
      exact Nat.zero_le _
    · simp only [nextRow, one]

theorem nextRow_of_last (gs : GIFFrameReader) (last : gs.ipass = 5) : gs.nextRow = gs := by
  simp only [nextRow, last]

/-- The search ends with the row behind `irow` in the order of the passes: in the fourth turn at the
latest. -/
theorem iterate_search (turns : Nat) (gs : GIFFrameReader) (ipass irow : Nat)
    (positive : 0 < gs.height) (sixteen : gs.height < 2 ^ 16) (near : gs.irow < gs.height + 8)
    (first : 1 ≤ gs.ipass) (last : gs.ipass ≤ 4) (pass : passOf gs.irow = gs.ipass)
    (enough : 5 ≤ gs.ipass + turns)
    (between : ∀ row < gs.height, Before row gs.ipass (gs.irow + 1) ↔ Before row ipass (irow + 1)) :
    ∃ ipass' irow', iterate search turns gs = some { gs with ipass := ipass', irow := irow' } ∧
      irow' < gs.height ∧ 1 ≤ ipass' ∧ Follows gs.height ipass irow ipass' irow' := by
  induction turns generalizing gs with
  | zero => omega
  | succ turns ih =>
    obtain ⟨p, i, same, follows, further⟩ := nextRow_follows gs sixteen near first last pass
    have turned : search gs =
        if gs.height - 1 < i then .again { gs with ipass := p, irow := i }
        else .done { gs with ipass := p, irow := i } := by
      rw [search, same]
    rw [iterate, turned]
    by_cases below : gs.height - 1 < i
    · rw [if_pos below]
      have before : p ≤ 4 := by
        have := follows.last
        have := follows.behind
        omega
      refine ih { gs with ipass := p, irow := i } positive sixteen follows.near (by dsimp only; omega)
        before (follows.pass before) (by dsimp only; omega) fun row inside => ?_
      refine Iff.trans ?_ ((follows.between row inside).trans (between row inside))
      dsimp only at inside ⊢
      unfold Before
      omega
    · rw [if_neg below]
      refine ⟨p, i, rfl, by omega, by omega, follows.near, follows.last, follows.pass,
        follows.behind, fun row inside => ?_⟩
      exact (follows.between row inside).trans (between row inside)

/-- The reader stands at a row of its pass, or behind all passes. -/
structure Placed (height : Nat) (gs : GIFFrameReader) : Prop where
  sized : gs.height = height
  interlaced : gs.interlaced = true
  inside : gs.irow < height
  first : 1 ≤ gs.ipass
  last : gs.ipass ≤ 5
  pass : gs.ipass ≤ 4 → passOf gs.irow = gs.ipass
  behind : gs.ipass = 5 → gs.irow = 0

theorem Placed.advance {height : Nat} {gs : GIFFrameReader} (placed : Placed height gs)
    (positive : 0 < height) (sixteen : height < 2 ^ 16) :
    ∃ gs', gs.advance = some gs' ∧ Placed height gs' ∧
      (gs.ipass ≤ 4 → ∀ row < height,
        Before row gs'.ipass gs'.irow ↔ Before row gs.ipass gs.irow ∨ row = gs.irow) := by
  obtain ⟨irow, ipass, frame, interlaced, progressive⟩ := gs
  obtain ⟨rfl, rfl, inside, first, last, pass, behind⟩ := placed
  dsimp only at *
  rw [GIFFrameReader.advance, if_pos rfl]
  by_cases before : ipass ≤ 4
  · obtain ⟨p, i, found, inside', first', follows⟩ :=
      iterate_search 4 ⟨irow, ipass, frame, true, progressive⟩ ipass irow positive sixteen
        (by dsimp only; omega) first before (pass before) (by dsimp only; omega)
        fun _ _ => Iff.rfl
    refine ⟨_, found, ⟨rfl, rfl, inside', first', follows.last, follows.pass, follows.behind⟩,
      fun _ row below => (follows.between row below).trans ?_⟩
    have here := pass before
    unfold Before
    constructor
    · rintro (early | ⟨same, within⟩)
      · exact .inl (.inl early)
      · omega
    · rintro ((early | ⟨same, within⟩) | rfl)
      · exact .inl early
      · exact .inr ⟨same, by omega⟩
      · exact .inr ⟨here, by omega⟩
  · obtain rfl : ipass = 5 := by omega
    have zero := behind rfl
    subst zero
    have turned : search ⟨0, 5, frame, true, progressive⟩ = .done ⟨0, 5, frame, true, progressive⟩ := by
      rw [search, nextRow_of_last _ rfl, if_neg (by dsimp only; omega)]
    refine ⟨⟨0, 5, frame, true, progressive⟩, ?_,
      ⟨rfl, rfl, positive, first, last, pass, behind⟩, fun early => absurd early before⟩
    rw [iterate, turned]

theorem unsigned_of_nonneg {n : Int} (nonneg : 0 ≤ n) (small : n < 2 ^ 32) :
    (unsigned n : Int) = n := by
  rw [unsigned, Int.emod_eq_of_lt nonneg small, Int.toNat_of_nonneg nonneg]

theorem row_shift_le (ipass : Nat) : row_shift ipass ≤ row_dup ipass ∧ row_dup ipass ≤ 7 := by
  match ipass with
  | 0 => decide
  | 1 => decide
  | 2 => decide
  | 3 => decide
  | _ + 4 => exact ⟨Nat.le_refl 0, Nat.zero_le 7⟩

/-- The rows that are drawn lie inside the frame. -/
theorem Placed.drows {height : Nat} {gs : GIFFrameReader} (placed : Placed height gs)
    (sixteen : height < 2 ^ 16) :
    0 ≤ gs.drows.1 ∧ gs.drows.1 ≤ gs.drows.2 ∧ gs.drows.2 < height := by
  have inside := placed.inside
  have shift := row_shift_le gs.ipass
  rw [GIFFrameReader.drows]
  split
  · rw [placed.sized]
    dsimp only
    generalize ended : (gs.irow : Int) - row_shift gs.ipass + row_dup gs.ipass = drow_end
    have low : (gs.irow : Int) ≤ drow_end := by omega
    have high : drow_end < 2 ^ 32 := by omega
    generalize extended : (if unsigned ((height : Int) - 1 - drow_end) ≤ row_shift gs.ipass then
      (height : Int) - 1 else drow_end) = drow_end'
    have low' : (gs.irow : Int) ≤ drow_end' := by
      rw [← extended]
      split <;> omega
    have high' : drow_end' < 2 ^ 32 := by
      rw [← extended]
      split <;> omega
    have same := unsigned_of_nonneg (by omega : 0 ≤ drow_end') high'
    refine ⟨?_, ?_, ?_⟩
    · split <;> omega
    · split <;> split <;> omega
    · split <;> omega
  · dsimp only
    omega

/-- A range of rows of the frame. -/
def DrawsInside (height : Nat) (row : DecodedRow) : Prop :=
  0 ≤ row.rowNumber ∧ 1 ≤ row.repeatCount ∧ row.rowNumber + row.repeatCount ≤ height

/-- Whether a call goes on to the next row. -/
def taken (gs : GIFFrameReader) (client : Option (DecodedRow → Bool)) : Bool :=
  match client with
  | none => true
  | some haveDecodedRow => haveDecodedRow gs.decodedRow

theorem Placed.output_row {height : Nat} {gs : GIFFrameReader} (placed : Placed height gs)
    (positive : 0 < height) (sixteen : height < 2 ^ 16) (client : Option (DecodedRow → Bool)) :
    ∃ handed gs', gs.output_row client = some (gs.taken client, handed, gs') ∧
      (∀ row ∈ handed, DrawsInside height row) ∧ Placed height gs' ∧
      (gs.taken client = false → gs' = gs) ∧
      (gs.taken client = true → gs.ipass ≤ 4 → ∀ row < height,
        Before row gs'.ipass gs'.irow ↔ Before row gs.ipass gs.irow ∨ row = gs.irow) := by
  obtain ⟨low, ordered, high⟩ := placed.drows sixteen
  obtain ⟨gs', advanced, placed', visits⟩ := placed.advance positive sixteen
  have same := unsigned_of_nonneg low (by omega)
  have inside : ¬gs.height ≤ unsigned gs.drows.1 := by
    rw [placed.sized]
    omega
  have draws : DrawsInside height gs.decodedRow := by
    unfold DrawsInside decodedRow
    dsimp only
    omega
  cases client with
  | none =>
    refine ⟨none, gs', ?_, ?_, placed', fun refused => ?_, fun _ => visits⟩
    · rw [GIFFrameReader.output_row, if_neg inside, advanced]
      rfl
    · intro row member
      cases member
    · cases refused
  | some haveDecodedRow =>
    by_cases answer : gs.taken (some haveDecodedRow) = true
    · refine ⟨some gs.decodedRow, gs', ?_, ?_, placed', fun refused => ?_, fun _ => visits⟩
      · have accepted : haveDecodedRow gs.decodedRow = true := answer
        rw [answer, GIFFrameReader.output_row, if_neg inside, advanced]
        exact if_pos accepted
      · intro row member
        rw [← Option.some.inj member]
        exact draws
      · rw [answer] at refused
        cases refused
    · refine ⟨some gs.decodedRow, gs, ?_, ?_, placed, fun _ => rfl, fun taken => absurd taken answer⟩
      · have declined : ¬haveDecodedRow gs.decodedRow = true := answer
        rw [eq_false_of_ne_true answer, GIFFrameReader.output_row, if_neg inside]
        exact if_neg declined
      · intro row member
        rw [← Option.some.inj member]
        exact draws

/-- The rows that were output are those before the place of the reader, each once. -/
structure Visited (height : Nat) (gs : GIFFrameReader) (visited : List Nat) : Prop where
  placed : Placed height gs
  nodup : visited.Nodup
  mem_iff : ∀ row, row ∈ visited ↔ row < height ∧ Before row gs.ipass gs.irow

/-- Behind all passes every row was output. -/
theorem Visited.length_eq {height : Nat} {gs : GIFFrameReader} {visited : List Nat}
    (done : Visited height gs visited) (last : gs.ipass = 5) : visited.length = height := by
  have perm : visited.Perm (List.range height) := by
    refine (List.perm_ext_iff_of_nodup done.nodup List.nodup_range).mpr fun row => ?_
    have bounds := passOf_bounds row
    rw [done.mem_iff, List.mem_range, last]
    exact and_iff_left_of_imp fun _ => .inl (by omega)
  rw [perm.length_eq, List.length_range]

/-- Every call ends, and every row that is handed over lies inside the frame. -/
theorem Placed.outputRows {height : Nat} (positive : 0 < height) (sixteen : height < 2 ^ 16)
    (clients : List (Option (DecodedRow → Bool))) {gs : GIFFrameReader} (placed : Placed height gs) :
    ∃ visited handed last, gs.outputRows clients = some (visited, handed, last) ∧
      ∀ row ∈ handed, DrawsInside height row := by
  induction clients generalizing gs with
  | nil => exact ⟨[], [], gs, rfl, List.forall_mem_nil _⟩
  | cons client clients ih =>
    obtain ⟨handed, gs', called, draws, placed', -⟩ := placed.output_row positive sixteen client
    obtain ⟨visited, rows, last, later, inside⟩ := ih placed'
    refine ⟨(if gs.taken client then [gs.irow] else []) ++ visited, handed.toList ++ rows, last,
      ?_, ?_⟩
    · rw [GIFFrameReader.outputRows, called, Option.bind_eq_bind, Option.bind_some]
      dsimp only
      rw [later]
      rfl
    · intro row member
      rcases List.mem_append.mp member with now | after
      · exact draws row (Option.mem_toList.mp now)
      · exact inside row after

/-- The row that is output next belongs to the rows that were output. -/
theorem Visited.next {height : Nat} {gs gs' : GIFFrameReader} {visited : List Nat}
    (done : Visited height gs visited) (placed : Placed height gs') (before : gs.ipass ≤ 4)
    (visits : ∀ row < height,
      Before row gs'.ipass gs'.irow ↔ Before row gs.ipass gs.irow ∨ row = gs.irow) :
    Visited height gs' (visited ++ [gs.irow]) where
  placed := placed
  nodup := by
    refine List.nodup_append.mpr ⟨done.nodup, List.nodup_singleton _, ?_⟩
    rintro row member _ same rfl
    obtain rfl := List.mem_singleton.mp same
    have here := done.placed.pass before
    rcases ((done.mem_iff _).mp member).2 with early | ⟨-, within⟩
    · omega
    · exact Nat.lt_irrefl _ within
  mem_iff row := by
    have inside := done.placed.inside
    rw [List.mem_append, List.mem_singleton, done.mem_iff]
    constructor
    · rintro (⟨low, early⟩ | rfl)
      · exact ⟨low, (visits row low).mpr (.inl early)⟩
      · exact ⟨inside, (visits _ inside).mpr (.inr rfl)⟩
    · rintro ⟨low, early⟩
      exact ((visits row low).mp early).imp_left fun early => ⟨low, early⟩

theorem Visited.outputRows {height : Nat} (positive : 0 < height) (sixteen : height < 2 ^ 16)
    (clients : List (Option (DecodedRow → Bool))) {gs last : GIFFrameReader}
    {before visited : List Nat} {handed : List DecodedRow} (done : Visited height gs before)
    (found : gs.outputRows clients = some (visited, handed, last))
    (few : before.length + visited.length ≤ height) : Visited height last (before ++ visited) := by
  induction clients generalizing gs before visited handed with
  | nil =>
    cases found
    rw [List.append_nil]
    exact done
  | cons client clients ih =>
    obtain ⟨row, gs', called, -, placed, kept, visits⟩ :=
      done.placed.output_row positive sixteen client
    obtain ⟨visited', rows, last', later, -⟩ := placed.outputRows positive sixteen clients
    rw [GIFFrameReader.outputRows, called, Option.bind_eq_bind, Option.bind_some] at found
    dsimp only at found
    rw [later] at found
    obtain ⟨same, -, rfl⟩ : _ = visited ∧ _ = handed ∧ last' = last := by
      simpa using found
    cases taken : gs.taken client with
    | false =>
      rw [taken] at same
      obtain rfl : visited' = visited := same
      obtain rfl := kept taken
      exact ih done later few
    | true =>
      rw [taken] at same
      obtain rfl : gs.irow :: visited' = visited := same
      rw [List.length_cons] at few
      have before_ : gs.ipass ≤ 4 := by
        by_contra beyond
        have := done.length_eq (by have := done.placed.last; omega)
        omega
      have next := done.next placed before_ (visits taken before_)
      have whole := ih next later (by rw [List.length_append, List.length_singleton]; omega)
      rwa [List.append_assoc, List.singleton_append] at whole

/-- A client that takes every row, or none at all. -/
def Takes (client : Option (DecodedRow → Bool)) : Prop :=
  ∀ haveDecodedRow, client = some haveDecodedRow → ∀ row, haveDecodedRow row = true

theorem Takes.taken {client : Option (DecodedRow → Bool)} (takes : Takes client)
    (gs : GIFFrameReader) : gs.taken client = true := by
  cases client with
  | none => rfl
  | some haveDecodedRow => exact takes haveDecodedRow rfl _

end GIFFrameReader
end WkcBrowser.Graphics
