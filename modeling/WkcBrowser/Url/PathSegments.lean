import WkcBrowser.Lib.SegmentStack
import WkcBrowser.Lib.Splitting
import WkcBrowser.Url.DotRemoval
import WkcBrowser.Url.Resolution

/-! The two routines that remove dots, on the segments of a path. -/

namespace WkcBrowser.Url

open Lib Wtf

abbrev Segment := List Byte

/-- The bytes that are copied when these segments are closed by a slash, the last one first. -/
def closed : List Segment → List Byte
  | [] => [0x2f]
  | segment :: stack => 0x2f :: (segment.reverse ++ closed stack)

def oneDot : Segment := [0x2e]

def twoDots : Segment := [0x2e, 0x2e]

def isDots (segment : Segment) : Bool := segment = oneDot || segment = twoDots

/-- Empty segments are popped with the one before them. -/
abbrev popSegments : List Segment → List Segment := SegmentStack.popThrough (·.isEmpty)

/-- Segments that no slash is in. -/
def Slashless (segments : List Segment) : Prop := ∀ segment ∈ segments, 0x2f ∉ segment

theorem Slashless.push {stack : List Segment} (plain : Slashless stack) {segment : Segment}
    (noSlash : 0x2f ∉ segment) : Slashless (segment :: stack) := by
  intro other member
  cases List.mem_cons.mp member with
  | inl same => exact same ▸ noSlash
  | inr behind => exact plain other behind

theorem Slashless.popThrough {stack : List Segment} (plain : Slashless stack) : Slashless (popSegments stack) :=
  fun segment member => plain segment (SegmentStack.popThrough_subset _ _ member)

/-- Segments that were copied: no slash is in them and none of them is dots. -/
def Copied (stack : List Segment) : Prop := ∀ segment ∈ stack, 0x2f ∉ segment ∧ isDots segment = false

theorem Copied.plain {stack : List Segment} (copied : Copied stack) : Slashless stack :=
  fun segment member => (copied segment member).1

/-- The path with these closed segments and this one behind them. -/
def pathOf (stack : List Segment) (segment : Segment) : List Byte :=
  (segment.reverse ++ closed stack).reverse

theorem pathOf_intercalate (stack : List Segment) (segment : Segment) :
    pathOf stack segment = 0x2f :: [0x2f].intercalate (stack.reverse ++ [segment]) := by
  unfold pathOf
  induction stack generalizing segment with
  | nil => simp [closed]
  | cons last stack ih =>
    have behind := ih last
    rw [List.reverse_append, List.reverse_reverse, closed, List.reverse_cons, behind, List.reverse_cons,
      Splitting.intercalate_append (List.append_ne_nil_of_right_ne_nil _ (List.cons_ne_nil _ _))
        (List.cons_ne_nil _ _), List.intercalate_singleton]
    simp only [List.append_assoc, List.cons_append, List.nil_append]

/-- A path has a slash for each of its closed segments and one before them. -/
theorem count_pathOf {stack : List Segment} (plain : Slashless stack) {segment : Segment}
    (plainLast : 0x2f ∉ segment) : (pathOf stack segment).count 0x2f = stack.length + 1 := by
  rw [pathOf, List.count_reverse, List.count_append, List.count_reverse,
    List.count_eq_zero_of_not_mem plainLast, Nat.zero_add]
  induction stack with
  | nil => rfl
  | cons last stack ih =>
    rw [closed, List.count_cons_self, List.count_append, List.count_reverse,
      List.count_eq_zero_of_not_mem (plain last List.mem_cons_self), Nat.zero_add,
      ih fun segment member => plain segment (List.mem_cons_of_mem _ member), List.length_cons]

/-! The loop of `init`. -/

/-- None of the characters ends a segment. -/
def Unmarked (text : List Byte) : Prop := ∀ c ∈ text, isPathSegmentEndChar c = false

theorem endChar_facts {c : Byte} (unmarked : isPathSegmentEndChar c = false) :
    c ≠ 0x2f ∧ c ≠ 0x3f ∧ c ≠ 0x23 := by
  have facts := forall_byte (fun c => isPathSegmentEndChar c || (c ≠ 0x2f && c ≠ 0x3f && c ≠ 0x23))
    (by decide) c
  simpa [unmarked, and_assoc] using facts

theorem Unmarked.plain {segment : Segment} (unmarked : Unmarked segment) : 0x2f ∉ segment :=
  fun member => (endChar_facts (unmarked _ member)).1 rfl

section
variable {front : List Byte} {p : Writer Byte}

end

end WkcBrowser.Url
