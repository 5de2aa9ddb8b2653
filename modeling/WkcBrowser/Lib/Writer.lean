import Mathlib.Data.List.Basic

/-! What a buffer holds at an offset, and writes to it that leave the rest as it is. -/

namespace WkcBrowser.Lib.Window

variable {α : Type} {buffer bytes more : List α} {start at_ : Nat}

def Holds (buffer : List α) (start : Nat) (bytes : List α) : Prop :=
  ∀ i < bytes.length, buffer[start + i]? = bytes[i]?

def overwrite (buffer : List α) (start : Nat) (bytes : List α) : List α :=
  buffer.take start ++ bytes ++ buffer.drop (start + bytes.length)

theorem length_overwrite (fits : start + bytes.length ≤ buffer.length) :
    (overwrite buffer start bytes).length = buffer.length := by
  simp only [overwrite, List.length_append, List.length_take, List.length_drop]
  omega

theorem getElem?_overwrite (fits : start + bytes.length ≤ buffer.length) (i : Nat) :
    (overwrite buffer start bytes)[i]? =
      if start ≤ i ∧ i < start + bytes.length then bytes[i - start]? else buffer[i]? := by
  have taken : (buffer.take start).length = start := by
    rw [List.length_take]
    omega
  unfold overwrite
  split
  · rename_i inside
    rw [List.getElem?_append_left, List.getElem?_append_right, taken]
    · omega
    · simp only [List.length_append, taken]
      omega
  · rename_i outside
    by_cases before : i < start
    · rw [List.append_assoc, List.getElem?_append_left (by omega), List.getElem?_take_of_lt before]
    · have length : (buffer.take start ++ bytes).length = start + bytes.length := by
        rw [List.length_append, taken]
      rw [List.getElem?_append_right (by omega), length, List.getElem?_drop]
      congr 1
      omega

theorem holds_nil : Holds buffer start [] :=
  fun _ short => absurd short (Nat.not_lt_zero _)

theorem holds_overwrite (fits : start + bytes.length ≤ buffer.length) :
    Holds (overwrite buffer start bytes) start bytes := by
  intro i short
  rw [getElem?_overwrite fits, if_pos (by omega), Nat.add_sub_cancel_left]

/-- What lies apart from a write stays. -/
theorem Holds.overwrite (holds : Holds buffer start bytes)
    (fits : at_ + more.length ≤ buffer.length)
    (apart : start + bytes.length ≤ at_ ∨ at_ + more.length ≤ start) :
    Holds (overwrite buffer at_ more) start bytes := by
  intro i short
  rw [getElem?_overwrite fits, if_neg (by omega), holds i short]

theorem holds_append : Holds buffer start (bytes ++ more) ↔
    Holds buffer start bytes ∧ Holds buffer (start + bytes.length) more := by
  constructor
  · intro holds
    constructor
    · intro i short
      rw [holds i (by rw [List.length_append]; omega), List.getElem?_append_left short]
    · intro i short
      rw [Nat.add_assoc, holds _ (by rw [List.length_append]; omega),
        List.getElem?_append_right (by omega), Nat.add_sub_cancel_left]
  · rintro ⟨first, second⟩ i short
    rw [List.length_append] at short
    by_cases inFirst : i < bytes.length
    · rw [first i inFirst, List.getElem?_append_left inFirst]
    · have found := second (i - bytes.length) (by omega)
      rw [List.getElem?_append_right (by omega), ← found]
      congr 1
      omega

theorem holds_self (buffer : List α) : Holds buffer 0 buffer :=
  fun i _ => by rw [Nat.zero_add]

theorem Holds.take_drop (holds : Holds buffer start bytes) :
    (buffer.drop start).take bytes.length = bytes := by
  apply List.ext_getElem?
  intro i
  rw [List.getElem?_take, List.getElem?_drop]
  split
  · exact holds i ‹_›
  · rw [List.getElem?_eq_none (by omega)]

/-- What a reader finds from there on. -/
theorem Holds.drop (holds : Holds buffer start bytes) :
    ∃ rest, buffer.drop start = bytes ++ rest := by
  have parts := List.take_append_drop bytes.length (buffer.drop start)
  rw [holds.take_drop] at parts
  exact ⟨_, parts.symm⟩

/-- A buffer that is held whole. -/
theorem Holds.eq (holds : Holds buffer 0 bytes) (length : bytes.length = buffer.length) :
    buffer = bytes := by
  have taken := holds.take_drop
  rwa [List.drop_zero, length, List.take_length] at taken

theorem Holds.getElem? (holds : Holds buffer start bytes) {i : Nat} (short : i < bytes.length) :
    buffer[start + i]? = some bytes[i] := by
  rw [holds i short, List.getElem?_eq_getElem short]

end WkcBrowser.Lib.Window

/-! Writing through a pointer into a buffer. -/

namespace WkcBrowser.Lib

/-- What is before the pointer, the last element first, and where the elements end that were written. -/
structure Writer (α : Type) where
  before : List α := []
  high : Nat := 0

namespace Writer

variable {α : Type}

/-- The pointer moves over the element that is written. -/
def put (w : Writer α) (a : α) : Writer α :=
  ⟨a :: w.before, max w.high (w.before.length + 1)⟩

def puts (w : Writer α) (as : List α) : Writer α := as.foldl put w

/-- An element is written behind the pointer, which stays. -/
def terminate (w : Writer α) : Writer α := { w with high := max w.high (w.before.length + 1) }

/-- The pointer goes back. -/
def back (w : Writer α) (before : List α) : Writer α := { w with before }

/-- A part of the buffer is written by a writer of its own, which the pointer follows. -/
def splice (w part : Writer α) : Writer α :=
  ⟨part.before ++ w.before, max w.high (w.before.length + part.high)⟩

/-- All that is written is in a part of the buffer. -/
structure Below (w : Writer α) (size : Nat) : Prop where
  before : w.before.length ≤ size
  high : w.high ≤ size

variable {w part : Writer α} {size more : Nat}

theorem below_start : ({} : Writer α).Below 0 := ⟨Nat.le_refl 0, Nat.le_refl 0⟩

theorem Below.mono (below : w.Below size) (le : size ≤ more) : w.Below more :=
  ⟨Nat.le_trans below.before le, Nat.le_trans below.high le⟩

theorem Below.put (below : w.Below size) (a : α) : (w.put a).Below (size + 1) := by
  have before := below.before
  have high := below.high
  constructor
  · show w.before.length + 1 ≤ size + 1
    omega
  · show max w.high (w.before.length + 1) ≤ size + 1
    omega

theorem Below.puts (below : w.Below size) (as : List α) : (w.puts as).Below (size + as.length) := by
  induction as generalizing w size with
  | nil => exact below
  | cons a as ih =>
    rw [List.length_cons, Nat.add_comm as.length 1, ← Nat.add_assoc]
    exact ih (below.put a)

theorem Below.terminate (below : w.Below size) : w.terminate.Below (size + 1) := by
  have before := below.before
  have high := below.high
  constructor
  · exact Nat.le_trans before (Nat.le_succ size)
  · show max w.high (w.before.length + 1) ≤ size + 1
    omega

theorem Below.back (below : w.Below size) {before : List α} (le : before.length ≤ w.before.length) :
    (w.back before).Below size :=
  ⟨Nat.le_trans le below.before, below.high⟩

theorem Below.splice (below : w.Below size) (inside : part.Below more) :
    (w.splice part).Below (size + more) := by
  have before := below.before
  have high := below.high
  have partBefore := inside.before
  have partHigh := inside.high
  constructor
  · show (part.before ++ w.before).length ≤ size + more
    rw [List.length_append]
    omega
  · show max w.high (w.before.length + part.high) ≤ size + more
    omega

@[simp] theorem before_put (w : Writer α) (a : α) : (w.put a).before = a :: w.before := rfl

theorem before_puts (w : Writer α) (as : List α) :
    (w.puts as).before = as.reverse ++ w.before := by
  induction as generalizing w with
  | nil => rfl
  | cons a as ih =>
    show (puts (w.put a) as).before = _
    rw [ih, before_put, List.reverse_cons, List.append_assoc]
    rfl

/-- The pointer only moved over what was written. -/
def Straight (w : Writer α) : Prop := w.high = w.before.length

theorem straight_start : ({} : Writer α).Straight := rfl

theorem Straight.put (straight : w.Straight) (a : α) : (w.put a).Straight := by
  show max w.high (w.before.length + 1) = w.before.length + 1
  rw [straight]
  exact Nat.max_eq_right (Nat.le_succ _)

theorem Straight.puts (straight : w.Straight) (as : List α) : (w.puts as).Straight := by
  induction as generalizing w with
  | nil => exact straight
  | cons a as ih => exact ih (straight.put a)

end Writer

/-- A buffer with what is written to it. -/
structure Buffer (α : Type) where
  size : Nat
  writer : Writer α

/-- Nothing is written outside of the buffer. -/
def Buffer.Fits {α : Type} (buffer : Buffer α) : Prop := buffer.writer.high ≤ buffer.size

end WkcBrowser.Lib
