import WkcBrowser.Graphics.IntRect

/-! The geometry of `SpatialNavigation` of WebCore's `page` directory: which boxes lie in a direction from
the focused one, how well they are aligned with it, and how far away they are. -/

namespace WkcBrowser.Page

open Graphics

inductive FocusDirection where
  | none
  | forward
  | backward
  | up
  | down
  | left
  | right
deriving DecidableEq

inductive RectsAlignment where
  | none
  | partial_
  | full
deriving DecidableEq

/-- `None`, `Partial` and `Full` are numbers. -/
def RectsAlignment.rank : RectsAlignment → Nat
  | none => 0
  | partial_ => 1
  | full => 2

def isHorizontalMove (direction : FocusDirection) : Bool := direction = .left ∨ direction = .right

def start (direction : FocusDirection) (rect : IntRect) : Int :=
  if isHorizontalMove direction then rect.y else rect.x

def middle (direction : FocusDirection) (rect : IntRect) : Int :=
  if isHorizontalMove direction then rect.center.y else rect.center.x

def end_ (direction : FocusDirection) (rect : IntRect) : Int :=
  if isHorizontalMove direction then rect.bottom else rect.right

/-- The end of `areRectsFullyAligned`: a centre is between the edges of the other box, or two edges are
the same. -/
def areEdgesAligned (direction : FocusDirection) (a b : IntRect) : Bool :=
  let aStart := start direction a
  let bStart := start direction b
  let aMiddle := middle direction a
  let bMiddle := middle direction b
  let aEnd := end_ direction a
  let bEnd := end_ direction b
  bMiddle ≥ aStart && bMiddle ≤ aEnd || aMiddle ≥ bStart && aMiddle ≤ bEnd || bStart = aStart ||
    bEnd = aEnd

def areRectsFullyAligned (direction : FocusDirection) (a b : IntRect) : Bool :=
  match direction with
  | .left => if a.x < b.right then false else areEdgesAligned direction a b
  | .right => if b.x < a.right then false else areEdgesAligned direction a b
  | .up => if a.y < b.y then false else areEdgesAligned direction a b
  | .down => if b.y < a.y then false else areEdgesAligned direction a b
  | _ => false

def areRectsPartiallyAligned (direction : FocusDirection) (a b : IntRect) : Bool :=
  let aStart := start direction a
  let bStart := start direction b
  let bMiddle := middle direction b
  let aEnd := end_ direction a
  let bEnd := end_ direction b
  bStart ≥ aStart && bStart ≤ aEnd || bStart ≥ aStart && bStart ≤ aEnd ||
    bEnd ≥ aStart && bEnd ≤ aEnd || bMiddle ≥ aStart && bMiddle ≤ aEnd ||
    bEnd ≥ aStart && bEnd ≤ aEnd

def alignmentForRects (direction : FocusDirection) (curRect targetRect : IntRect) : RectsAlignment :=
  if areRectsFullyAligned direction curRect targetRect then .full
  else if areRectsPartiallyAligned direction curRect targetRect then .partial_
  else .none

def below (a b : IntRect) : Bool := a.y > b.bottom

def rightOf (a b : IntRect) : Bool := a.x > b.right

def spatialDistance (direction : FocusDirection) (a b : IntRect) : Int :=
  let (y1, y2) :=
    if below a b then (a.y, b.bottom) else if below b a then (a.bottom, b.y) else (0, 0)
  let (x1, x2) :=
    if rightOf a b then (a.x, b.right) else if rightOf b a then (a.right, b.x) else (0, 0)
  let (x1, y1, x2, y2) := match direction with
    | .left => (a.x, y1, b.right, y2)
    | .right => (a.right, y1, b.x, y2)
    | .up => (x1, a.y, x2, b.bottom)
    | .down => (x1, a.bottom, x2, b.y)
    | _ => (0, 0, 0, 0)
  let dx := x1 - x2
  let dy := y1 - y2
  let distance := dx * dx + dy * dy
  if distance < 0 then -distance else distance

def isRectInDirection (direction : FocusDirection) (curRect targetRect : IntRect) : Bool :=
  let center := targetRect.center
  let targetMiddle := if isHorizontalMove direction then center.x else center.y
  match direction with
  | .left => targetMiddle < curRect.x
  | .right => targetMiddle > curRect.right
  | .up => targetMiddle < curRect.y
  | .down => targetMiddle > curRect.bottom
  | _ => false

/-- The three functions give the same results for two directions and two pairs of boxes. -/
structure Alike (direction : FocusDirection) (a b : IntRect) (direction' : FocusDirection)
    (a' b' : IntRect) : Prop where
  inDirection : isRectInDirection direction a b = isRectInDirection direction' a' b'
  alignment : alignmentForRects direction a b = alignmentForRects direction' a' b'
  distance : spatialDistance direction a b = spatialDistance direction' a' b'

/-- What would hold if the four directions were treated alike. -/
structure Symmetric (a b : IntRect) : Prop where
  leftUp : Alike .left a b .up a.transpose b.transpose
  rightDown : Alike .right a b .down a.transpose b.transpose
  leftRight : Alike .left a b .right a.mirror b.mirror

/-- The boxes overlap as far as their columns go. -/
def SharesColumn (a b : IntRect) : Prop := a.x < b.right ∧ b.x < a.right

/-- The centre of one box is between the upper and lower edges of the other, or two of these edges are
level. -/
def SharesRow (a b : IntRect) : Prop :=
  a.y ≤ b.center.y ∧ b.center.y ≤ a.bottom ∨ b.y ≤ a.center.y ∧ a.center.y ≤ b.bottom ∨
    b.y = a.y ∨ b.bottom = a.bottom

theorem areEdgesAligned_left (a b : IntRect) :
    areEdgesAligned .left a b = true ↔ SharesRow a b := by
  simp only [areEdgesAligned, SharesRow, start, middle, end_, isHorizontalMove, Bool.or_eq_true,
    Bool.and_eq_true, decide_eq_true_iff, or_assoc, true_or, decide_true, if_true, ge_iff_le]

/-- Alignments agree when full alignments do, the partial ones being the same. -/
theorem alignmentForRects_eq_iff {direction direction' : FocusDirection} {a b a' b' : IntRect}
    (same : areRectsPartiallyAligned direction a b = areRectsPartiallyAligned direction' a' b') :
    alignmentForRects direction a b = alignmentForRects direction' a' b' ↔
      areRectsFullyAligned direction a b = areRectsFullyAligned direction' a' b' := by
  unfold alignmentForRects
  rw [same]
  cases areRectsFullyAligned direction a b <;> cases areRectsFullyAligned direction' a' b' <;>
    cases areRectsPartiallyAligned direction' a' b' <;> decide

section
variable {a b : IntRect}

theorem spatialDistance_up :
    spatialDistance .up a.transpose b.transpose = spatialDistance .left a b := by
  have crossed : ∀ dx dy : Int, dy * dy + dx * dx = dx * dx + dy * dy := fun dx dy => Int.add_comm ..
  unfold spatialDistance
  dsimp only
  rw [crossed]
  rfl

theorem spatialDistance_down :
    spatialDistance .down a.transpose b.transpose = spatialDistance .right a b := by
  have crossed : ∀ dx dy : Int, dy * dy + dx * dx = dx * dx + dy * dy := fun dx dy => Int.add_comm ..
  unfold spatialDistance
  dsimp only
  rw [crossed]
  rfl

theorem spatialDistance_mirror :
    spatialDistance .right a.mirror b.mirror = spatialDistance .left a b := by
  have turned : a.mirror.right - b.mirror.x = -(a.x - b.right) := by
    simp only [IntRect.mirror, IntRect.right]
    omega
  unfold spatialDistance
  dsimp only
  rw [turned, Int.neg_mul_neg]
  rfl

/-- A stricter guard makes a difference where it alone stops. -/
theorem guards_eq_iff {stricter laxer : Prop} [Decidable stricter] [Decidable laxer]
    (implies : laxer → stricter) (aligned : Bool) :
    (if stricter then false else aligned) = (if laxer then false else aligned) ↔
      ¬(¬laxer ∧ stricter ∧ aligned = true) := by
  by_cases lax : laxer
  · rw [if_pos lax, if_pos (implies lax)]
    exact iff_of_true rfl fun both => both.1 lax
  · rw [if_neg lax]
    by_cases strict : stricter
    · rw [if_pos strict]
      cases aligned with
      | false => exact iff_of_true rfl fun both => Bool.false_ne_true both.2.2
      | true => exact iff_of_false Bool.false_ne_true fun apart => apart ⟨lax, strict, rfl⟩
    · rw [if_neg strict]
      exact iff_of_true rfl fun both => strict both.2.1

/-- Left and up agree unless the boxes overlap and are aligned. -/
theorem alike_left_up (positive : 0 < b.width) :
    Alike .left a b .up a.transpose b.transpose ↔
      ¬(b.x ≤ a.x ∧ a.x < b.right ∧ SharesRow a b) := by
  have partly : areRectsPartiallyAligned .left a b =
      areRectsPartiallyAligned .up a.transpose b.transpose := rfl
  have full : areRectsFullyAligned .left a b = areRectsFullyAligned .up a.transpose b.transpose ↔
      ¬(¬a.x < b.x ∧ a.x < b.right ∧ areEdgesAligned .left a b = true) := by
    apply guards_eq_iff
    intro before
    change a.x < b.x at before
    unfold IntRect.right
    omega
  have aligned := (alignmentForRects_eq_iff partly).trans full
  rw [areEdgesAligned_left, Int.not_lt] at aligned
  rw [← aligned]
  exact ⟨fun alike => alike.alignment, fun same => ⟨rfl, same, spatialDistance_up.symm⟩⟩

theorem alike_right_down (positive : 0 < a.width) :
    Alike .right a b .down a.transpose b.transpose ↔
      ¬(a.x ≤ b.x ∧ b.x < a.right ∧ SharesRow a b) := by
  have partly : areRectsPartiallyAligned .right a b =
      areRectsPartiallyAligned .down a.transpose b.transpose := rfl
  have full : areRectsFullyAligned .right a b =
      areRectsFullyAligned .down a.transpose b.transpose ↔
        ¬(¬b.x < a.x ∧ b.x < a.right ∧ areEdgesAligned .left a b = true) := by
    apply guards_eq_iff
    intro before
    change b.x < a.x at before
    unfold IntRect.right
    omega
  have aligned := (alignmentForRects_eq_iff partly).trans full
  rw [areEdgesAligned_left, Int.not_lt] at aligned
  rw [← aligned]
  exact ⟨fun alike => alike.alignment, fun same => ⟨rfl, same, spatialDistance_down.symm⟩⟩

/-- The centre of a box of odd width is not in its middle, and mirroring moves it. -/
theorem alike_left_right (positive : 0 < b.width) :
    Alike .left a b .right a.mirror b.mirror ↔
      ¬(b.width % 2 = 1 ∧ a.x = b.center.x + 1) := by
  have half : b.width.tdiv 2 = b.width / 2 := Int.tdiv_eq_ediv_of_nonneg (by omega)
  have direction : isRectInDirection .left a b = isRectInDirection .right a.mirror b.mirror ↔
      ¬(b.width % 2 = 1 ∧ a.x = b.center.x + 1) := by
    simp only [isRectInDirection, isHorizontalMove, IntRect.center, IntRect.mirror, IntRect.right,
      half, decide_eq_decide]
    simp
    omega
  have aligned : alignmentForRects .left a b = alignmentForRects .right a.mirror b.mirror := by
    have partly : areRectsPartiallyAligned .left a b =
        areRectsPartiallyAligned .right a.mirror b.mirror := rfl
    rw [alignmentForRects_eq_iff partly]
    have turned : b.mirror.x < a.mirror.right ↔ a.x < b.right := by
      simp only [IntRect.mirror, IntRect.right]
      omega
    unfold areRectsFullyAligned
    simp only [turned]
    rfl
  rw [← direction]
  exact ⟨fun alike => alike.inDirection, fun same => ⟨same, aligned, spatialDistance_mirror.symm⟩⟩

/-- The directions are treated alike exactly when boxes that are aligned in a row share no column, and
the centre of a box of odd width does not fall just short of an edge. -/
theorem symmetric_iff (positive_a : 0 < a.width ∧ 0 < a.height)
    (positive_b : 0 < b.width ∧ 0 < b.height) :
    Symmetric a b ↔
      ¬(SharesColumn a b ∧ SharesRow a b) ∧ ¬(b.width % 2 = 1 ∧ a.x = b.center.x + 1) := by
  have laws : Symmetric a b ↔ Alike .left a b .up a.transpose b.transpose ∧
      Alike .right a b .down a.transpose b.transpose ∧ Alike .left a b .right a.mirror b.mirror :=
    ⟨fun all => ⟨all.leftUp, all.rightDown, all.leftRight⟩, fun ⟨up, down, right⟩ => ⟨up, down, right⟩⟩
  rw [laws, alike_left_up positive_b.1, alike_right_down positive_a.1, alike_left_right positive_b.1,
    ← and_assoc]
  apply and_congr_left'
  rw [← not_or, not_iff_not]
  have column : SharesColumn a b ↔ b.x ≤ a.x ∧ a.x < b.right ∨ a.x ≤ b.x ∧ b.x < a.right := by
    unfold SharesColumn IntRect.right
    omega
  rw [column, or_and_right, and_assoc, and_assoc]

theorem symmetric_iff_apart :
    Symmetric ⟨0, 0, 10, 10⟩ ⟨30, 0, 10, 10⟩ ↔
      ¬(SharesColumn ⟨0, 0, 10, 10⟩ ⟨30, 0, 10, 10⟩ ∧ SharesRow ⟨0, 0, 10, 10⟩ ⟨30, 0, 10, 10⟩) ∧
        ¬((10 : Int) % 2 = 1 ∧ (0 : Int) = (IntRect.mk 30 0 10 10).center.x + 1) :=
  symmetric_iff (by decide) (by decide)

/-- Up takes the box above to be fully aligned although the boxes overlap, and left does not. -/
theorem not_symmetric_overlapping : ¬Symmetric ⟨5, 0, 10, 10⟩ ⟨0, 0, 10, 10⟩ := by
  intro all
  exact absurd all.leftUp.alignment (by decide)

end

end WkcBrowser.Page
