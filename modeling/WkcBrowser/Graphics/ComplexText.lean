import Mathlib.Algebra.Order.BigOperators.Group.List
import Mathlib.Algebra.Order.Field.Basic
import Mathlib.Algebra.Order.Field.Rat
import Mathlib.Tactic.Linarith
import Mathlib.Tactic.Ring
import WkcBrowser.Graphics.IntRect
import WkcBrowser.Wtf.StringImpl

/-! The complex text functions of `FontWKC`: how wide a run of text is, where it is drawn, what part of it
is selected and which character is at a position. Lengths are the elements of any ordered field. -/

namespace WkcBrowser.Graphics

open Wtf

structure FloatRect (F : Type) where
  x : F
  y : F
  width : F
  height : F

def FloatRect.right {F : Type} [Add F] (rect : FloatRect F) : F := rect.x + rect.width

structure TextRun where
  characters : Text
  rtl : Bool

/-- The peer's font and the metrics of its platform data, in drawing units. -/
structure Font (F : Type) where
  /-- `wkcFontGetCharWidthPeer` -/
  charWidth : UChar → F
  scale : F
  ascent : Int
  descent : Int

/-- A character that is drawn with its clip rectangle. -/
structure DrawnChar (F : Type) where
  c : UChar
  clip : FloatRect F

def treatAsSpace (c : UChar) : Bool := c = 0x20 || c = 0x09 || c = 0x0A || c = 0x00A0

def treatAsZeroWidthSpace (c : UChar) : Bool :=
  c < 0x20 || c ≥ 0x7F && c < 0xA0 || c = 0x200e || c = 0x200f || c ≥ 0x202a && c ≤ 0x202e || c = 0xFFFC

/-- Characters that are ignored are 0. -/
def fixedChar (c : UChar) : UChar :=
  if treatAsSpace c then 0x20
  else if c = 0x200b || (treatAsZeroWidthSpace c || c = 0xfeff) then 0
  else c

namespace Font

variable {F : Type} [Field F] (font : Font F)

/-- The width of a character, 0 when it is ignored. -/
def advance (c : UChar) : F := if fixedChar c = 0 then 0 else font.charWidth (fixedChar c) * font.scale

/-- The loops that add up the widths of some characters to what there is. -/
def addWidths (x : F) : Text → F
  | [] => x
  | c :: text =>
    if fixedChar c = 0 then addWidths x text
    else addWidths (x + font.charWidth (fixedChar c) * font.scale) text

/-- The part of the run that `from` and `to` leave. -/
def part (run : TextRun) (from_ to_ : Int) : Text :=
  (run.characters.drop from_.toNat).take (to_.toNat - from_.toNat)

/-- The range is refused. -/
def refuses (run : TextRun) (from_ to_ : Int) : Bool :=
  run.characters.length = 0 || from_ ≥ run.characters.length || to_ > run.characters.length ||
    from_ ≥ to_

/-- `font` is null when there is no font of the peer. -/
def selectionRectForComplexText (font : Option (Font F)) (run : TextRun) (point : IntPoint) (h : Int)
    (from_ to_ : Int) : FloatRect F :=
  if refuses run from_ to_ then ⟨0, 0, 0, 0⟩
  else match font with
    | none => ⟨0, 0, 0, 0⟩
    | some font =>
      let x0 := font.addWidths 0 (run.characters.take from_.toNat)
      let x1 := font.addWidths 0 (part run from_ to_)
      let x2 := font.addWidths 0 (run.characters.drop to_.toNat)
      if run.rtl then ⟨point.x + x2, point.y, x1, h⟩ else ⟨point.x + x0, point.y, x1, h⟩

/-- Characters are drawn from a position to the right. -/
def drawForwards (y : F) (x : F) : Text → List (DrawnChar F)
  | [] => []
  | c :: text =>
    if fixedChar c = 0 then drawForwards y x text
    else
      let width := font.charWidth (fixedChar c) * font.scale
      ⟨fixedChar c, x, y, width, (font.ascent + font.descent : Int)⟩ ::
        drawForwards y (x + width) text

/-- Characters are drawn from a position to the left. -/
def drawBackwards (y : F) (x : F) : Text → List (DrawnChar F)
  | [] => []
  | c :: text =>
    if fixedChar c = 0 then drawBackwards y x text
    else
      let width := font.charWidth (fixedChar c) * font.scale
      ⟨fixedChar c, x - width, y, width, (font.ascent + font.descent : Int)⟩ ::
        drawBackwards y (x - width) text

def drawComplexText (font : Option (Font F)) (run : TextRun) (pointX pointY : F) (from_ to_ : Int) :
    List (DrawnChar F) :=
  if refuses run from_ to_ then []
  else match font with
    | none => []
    | some font =>
      let y := pointY - (font.ascent : F)
      if run.rtl then
        let x1 := font.addWidths 0 (part run from_ to_)
        let x2 := font.addWidths 0 (run.characters.drop to_.toNat)
        font.drawBackwards y (pointX + x2 + x1) (part run from_ to_)
      else
        let x := font.addWidths pointX (run.characters.take from_.toNat)
        font.drawForwards y x (part run from_ to_)

def floatWidthForComplexText (font : Option (Font F)) (run : TextRun) : F :=
  match font with
  | none => 0
  | some font => font.addWidths 0 run.characters

variable [LinearOrder F]

/-- The loop for text from the right, at the given index. -/
def offsetBackwards (includePartialGlyphs : Bool) (delta : F) (i : Nat) : Text → Nat
  | [] => i
  | c :: text =>
    let w := font.advance c
    let delta := delta + w
    if includePartialGlyphs then
      if delta - w / 2 ≥ 0 then i else offsetBackwards includePartialGlyphs delta (i + 1) text
    else
      if delta ≥ 0 then i else offsetBackwards includePartialGlyphs delta (i + 1) text

/-- The loop for text from the left, at the given index. -/
def offsetForwards (includePartialGlyphs : Bool) (delta : F) (i : Nat) : Text → Nat
  | [] => i
  | c :: text =>
    let w := font.advance c
    let delta := delta - w
    if includePartialGlyphs then
      if delta + w / 2 ≤ 0 then i else offsetForwards includePartialGlyphs delta (i + 1) text
    else
      if delta ≤ 0 then i else offsetForwards includePartialGlyphs delta (i + 1) text

def offsetForPositionForComplexText (font : Option (Font F)) (run : TextRun) (x : Int)
    (includePartialGlyphs : Bool) : Nat :=
  match font with
  | none => 0
  | some font =>
    if run.rtl then
      let delta := (x : F) - floatWidthForComplexText (some font) run
      font.offsetBackwards includePartialGlyphs delta 0 run.characters
    else font.offsetForwards includePartialGlyphs x 0 run.characters

/-- Boxes that follow each other from the left edge to the right one. -/
def Tiles : List (FloatRect F) → F → F → Prop
  | [], left, right => left = right
  | box :: boxes, left, right => box.x = left ∧ Tiles boxes box.right right

/-- The edge of the selection where its first character starts. -/
def caret (run : TextRun) (rect : FloatRect F) : F := if run.rtl then rect.right else rect.x

/-- The clips of the characters that are drawn, from left to right. -/
def drawnBoxes (font : Option (Font F)) (run : TextRun) (pointX pointY : F) (from_ to_ : Int) :
    List (FloatRect F) :=
  let boxes := (drawComplexText font run pointX pointY from_ to_).map (·.clip)
  if run.rtl then boxes.reverse else boxes

section
variable {font : Font F} {run : TextRun} {text : Text}

omit [LinearOrder F] in
theorem advance_of_ignored {c : UChar} (ignored : fixedChar c = 0) : font.advance c = 0 :=
  if_pos ignored

omit [LinearOrder F] in
theorem advance_of_shown {c : UChar} (shown : fixedChar c ≠ 0) :
    font.advance c = font.charWidth (fixedChar c) * font.scale := if_neg shown

/-- The widths of all characters of a text. -/
def width (font : Font F) (text : Text) : F := (text.map font.advance).sum

omit [LinearOrder F] in
theorem width_nil : font.width [] = 0 := rfl

omit [LinearOrder F] in
theorem width_append (before after : Text) :
    font.width (before ++ after) = font.width before + font.width after := by
  simp only [width, List.map_append, List.sum_append]

omit [LinearOrder F] in
theorem width_cons (c : UChar) (text : Text) :
    font.width (c :: text) = font.advance c + font.width text := by
  simp only [width, List.map_cons, List.sum_cons]

omit [LinearOrder F] in
theorem addWidths_eq (x : F) (text : Text) : font.addWidths x text = x + font.width text := by
  induction text generalizing x with
  | nil => simp only [addWidths, width_nil, add_zero]
  | cons c text ih =>
    rw [addWidths, width_cons]
    by_cases ignored : fixedChar c = 0
    · rw [if_pos ignored, ih, advance_of_ignored ignored, zero_add]
    · rw [if_neg ignored, ih, advance_of_shown ignored, add_assoc]

omit [LinearOrder F] in
theorem width_split (run : TextRun) {from_ to_ : Int} (order : from_ ≤ to_) :
    font.width (run.characters.take from_.toNat) + font.width (part run from_ to_) +
      font.width (run.characters.drop to_.toNat) = font.width run.characters := by
  have sum : from_.toNat + (to_.toNat - from_.toNat) = to_.toNat := by omega
  rw [part, ← width_append, ← List.take_add, sum, ← width_append, List.take_append_drop]

section
variable [IsStrictOrderedRing F]

theorem width_nonneg (positive : ∀ c, 0 ≤ font.advance c) (text : Text) : 0 ≤ font.width text :=
  List.sum_nonneg (by simpa only [List.forall_mem_map] using fun c _ => positive c)

/-- Text from the right is measured like text from the left, with signs changed. -/
theorem offsetBackwards_eq (partly : Bool) (delta : F) (i : Nat) (text : Text) :
    font.offsetBackwards partly delta i text = font.offsetForwards partly (-delta) i text := by
  induction text generalizing delta i with
  | nil => rfl
  | cons c text ih =>
    have sides : ∀ w : F, -delta - w = -(delta + w) := fun w => by ring
    have partly_iff : ∀ w : F, delta + w - w / 2 ≥ 0 ↔ -(delta + w) + w / 2 ≤ 0 := by
      intro w
      constructor <;> intro <;> linarith
    have wholly_iff : ∀ w : F, delta + w ≥ 0 ↔ -(delta + w) ≤ 0 := by
      intro w
      constructor <;> intro <;> linarith
    simp only [offsetBackwards, offsetForwards, sides, partly_iff, wholly_iff, ih]

/-- At the start of a character the search ends where the text before is as wide. -/
theorem offsetForwards_spec (positive : ∀ c, 0 ≤ font.advance c) (i offset : Nat)
    (within : offset ≤ text.length) :
    ∃ n ≤ offset, font.offsetForwards true (font.width (text.take offset)) i text = i + n ∧
      font.width (text.take n) = font.width (text.take offset) := by
  induction text generalizing i offset with
  | nil =>
    obtain rfl : offset = 0 := Nat.le_zero.mp within
    exact ⟨0, le_refl 0, rfl, rfl⟩
  | cons c text ih =>
    have width := positive c
    rw [offsetForwards]
    simp only [if_true]
    cases offset with
    | zero =>
      have stops : font.width ((c :: text).take 0) - font.advance c + font.advance c / 2 ≤ 0 := by
        rw [List.take_zero, width_nil]
        linarith
      rw [if_pos stops]
      exact ⟨0, le_refl 0, rfl, rfl⟩
    | succ offset =>
      have rest := width_nonneg positive (text.take offset)
      rw [List.take_succ_cons, width_cons, add_sub_cancel_left]
      by_cases stops : font.width (text.take offset) + font.advance c / 2 ≤ 0
      · rw [if_pos stops]
        refine ⟨0, Nat.zero_le _, rfl, ?_⟩
        rw [List.take_zero, width_nil]
        linarith
      · rw [if_neg stops]
        obtain ⟨n, n_le, found, same⟩ := ih (i + 1) offset (Nat.le_of_succ_le_succ within)
        refine ⟨n + 1, Nat.succ_le_succ n_le, by rw [found]; omega, ?_⟩
        rw [List.take_succ_cons, width_cons, same]

end

omit [LinearOrder F] in
theorem Tiles.append {boxes boxes' : List (FloatRect F)} {left middle right : F}
    (first : Tiles boxes left middle) (second : Tiles boxes' middle right) :
    Tiles (boxes ++ boxes') left right := by
  induction boxes generalizing left with
  | nil =>
    obtain rfl : left = middle := first
    exact second
  | cons box boxes ih => exact ⟨first.1, ih first.2⟩

omit [LinearOrder F] in
theorem tiles_drawForwards (y x : F) (text : Text) :
    Tiles ((font.drawForwards y x text).map (·.clip)) x (x + font.width text) := by
  induction text generalizing x with
  | nil => simp only [drawForwards, List.map_nil, Tiles, width_nil, add_zero]
  | cons c text ih =>
    rw [drawForwards, width_cons]
    by_cases ignored : fixedChar c = 0
    · rw [if_pos ignored, advance_of_ignored ignored, zero_add]
      exact ih x
    · rw [if_neg ignored, advance_of_shown ignored, ← add_assoc]
      exact ⟨rfl, ih _⟩

omit [LinearOrder F] in
theorem tiles_drawBackwards (y x : F) (text : Text) :
    Tiles ((font.drawBackwards y x text).map (·.clip)).reverse (x - font.width text) x := by
  induction text generalizing x with
  | nil => simp only [drawBackwards, List.map_nil, List.reverse_nil, Tiles, width_nil, sub_zero]
  | cons c text ih =>
    rw [drawBackwards, width_cons]
    by_cases ignored : fixedChar c = 0
    · rw [if_pos ignored, advance_of_ignored ignored, zero_add]
      exact ih x
    · rw [if_neg ignored, advance_of_shown ignored, ← sub_sub]
      simp only [List.map_cons, List.reverse_cons]
      exact (ih _).append ⟨rfl, by simp only [FloatRect.right, sub_add_cancel, Tiles]⟩

omit [LinearOrder F] in
theorem drawForwards_row (y x : F) (text : Text) : ∀ drawn ∈ font.drawForwards y x text,
    drawn.clip.y = y ∧ drawn.clip.height = (font.ascent + font.descent : Int) := by
  induction text generalizing x with
  | nil => exact nofun
  | cons c text ih =>
    rw [drawForwards]
    split
    · exact ih x
    · exact List.forall_mem_cons.mpr ⟨⟨rfl, rfl⟩, ih _⟩

omit [LinearOrder F] in
theorem drawBackwards_row (y x : F) (text : Text) : ∀ drawn ∈ font.drawBackwards y x text,
    drawn.clip.y = y ∧ drawn.clip.height = (font.ascent + font.descent : Int) := by
  induction text generalizing x with
  | nil => exact nofun
  | cons c text ih =>
    rw [drawBackwards]
    split
    · exact ih x
    · exact List.forall_mem_cons.mpr ⟨⟨rfl, rfl⟩, ih _⟩

section
variable {point : IntPoint} {h : Int} {from_ to_ : Int}

theorem refuses_eq_false (start : 0 ≤ from_) (order : from_ < to_) (within : to_ ≤ run.characters.length) :
    refuses run from_ to_ = false := by
  simp only [refuses, Bool.or_eq_false_iff, decide_eq_false_iff_not]
  omega

omit [LinearOrder F] in
theorem selectionRect_eq (start : 0 ≤ from_) (order : from_ < to_) (within : to_ ≤ run.characters.length) :
    selectionRectForComplexText (some font) run point h from_ to_ =
      ⟨if run.rtl then point.x + font.width (run.characters.drop to_.toNat)
        else point.x + font.width (run.characters.take from_.toNat),
        point.y, font.width (part run from_ to_), h⟩ := by
  rw [selectionRectForComplexText, refuses_eq_false start order within]
  simp only [Bool.false_eq_true, if_false, addWidths_eq, zero_add]
  cases run.rtl <;> rfl

omit [LinearOrder F] in
theorem selectionRect_right (start : 0 ≤ from_) (order : from_ < to_)
    (within : to_ ≤ run.characters.length) :
    (selectionRectForComplexText (some font) run point h from_ to_).right =
      if run.rtl then point.x + (font.width run.characters - font.width (run.characters.take from_.toNat))
      else point.x + (font.width run.characters - font.width (run.characters.drop to_.toNat)) := by
  have sum := font.width_split run (le_of_lt order)
  rw [selectionRect_eq start order within, ← sum]
  cases run.rtl <;> simp only [FloatRect.right, if_true, Bool.false_eq_true, if_false] <;> ring

omit [LinearOrder F] in
/-- A caret is where the text before it ends, for text from the left or from the right. -/
theorem caret_eq (start : 0 ≤ from_) (order : from_ < to_) (within : to_ ≤ run.characters.length) :
    caret run (selectionRectForComplexText (some font) run point h from_ to_) =
      if run.rtl then point.x + (font.width run.characters - font.width (run.characters.take from_.toNat))
      else point.x + font.width (run.characters.take from_.toNat) := by
  rw [caret, selectionRect_right start order within, selectionRect_eq start order within]
  cases run.rtl <;> rfl

omit [LinearOrder F] in
theorem tiles_drawnBoxes (pointY : F) (start : 0 ≤ from_) (order : from_ < to_)
    (within : to_ ≤ run.characters.length) :
    let rect := selectionRectForComplexText (some font) run point h from_ to_
    Tiles (drawnBoxes (some font) run point.x pointY from_ to_) rect.x rect.right := by
  dsimp only
  rw [selectionRect_right start order within, selectionRect_eq start order within, drawnBoxes,
    drawComplexText, refuses_eq_false start order within, ← width_split run (le_of_lt order)]
  simp only [Bool.false_eq_true, if_false, addWidths_eq, zero_add]
  cases run.rtl with
  | false =>
    simp only [Bool.false_eq_true, if_false]
    have tiles := font.tiles_drawForwards (pointY - font.ascent)
      (point.x + font.width (run.characters.take from_.toNat)) (part run from_ to_)
    rwa [add_assoc, ← add_sub_cancel_right (_ + font.width (part run from_ to_))] at tiles
  | true =>
    simp only [if_true]
    have tiles := font.tiles_drawBackwards (pointY - font.ascent)
      (point.x + font.width (run.characters.drop to_.toNat) + font.width (part run from_ to_))
      (part run from_ to_)
    have right : font.width (run.characters.take from_.toNat) + font.width (part run from_ to_) +
        font.width (run.characters.drop to_.toNat) - font.width (run.characters.take from_.toNat) =
        font.width (run.characters.drop to_.toNat) + font.width (part run from_ to_) := by ring
    rw [add_sub_cancel_right] at tiles
    rwa [right, ← add_assoc]

omit [LinearOrder F] in
theorem drawnBoxes_row (pointX pointY : F) :
    ∀ box ∈ drawnBoxes (some font) run pointX pointY from_ to_,
      box.y = pointY - font.ascent ∧ box.height = (font.ascent + font.descent : Int) := by
  have row : ∀ drawn ∈ drawComplexText (some font) run pointX pointY from_ to_,
      drawn.clip.y = pointY - font.ascent ∧ drawn.clip.height = (font.ascent + font.descent : Int) := by
    rw [drawComplexText]
    split
    · exact nofun
    · cases run.rtl with
      | false => exact font.drawForwards_row _ _ _
      | true => exact font.drawBackwards_row _ _ _
  intro box drawn
  have listed : box ∈ (drawComplexText (some font) run pointX pointY from_ to_).map (·.clip) := by
    rw [drawnBoxes] at drawn
    split at drawn
    · exact List.mem_reverse.mp drawn
    · exact drawn
  obtain ⟨char, mem, rfl⟩ := List.mem_map.mp listed
  exact row char mem

end

section
variable [IsStrictOrderedRing F]

/-- The position of a caret is the position of the offset that is found there. -/
theorem caret_offsetForPosition (positive : ∀ c, 0 ≤ font.advance c) (point : IntPoint) (h : Int)
    {offset : Nat} {end_ x : Int} (order : offset < end_) (within : end_ ≤ run.characters.length)
    (position : caret run (selectionRectForComplexText (some font) run point h offset end_) =
      point.x + x) :
    let found := offsetForPositionForComplexText (some font) run x true
    found ≤ offset ∧ ∀ end' : Int, found < end' → end' ≤ run.characters.length →
      caret run (selectionRectForComplexText (some font) run point h found end') = point.x + x := by
  have place : offset ≤ run.characters.length := by omega
  obtain ⟨n, n_le, found, same⟩ := offsetForwards_spec positive 0 offset place
  rw [Nat.zero_add] at found
  have finds : offsetForPositionForComplexText (some font) run x true = n := by
    rw [caret_eq (by omega) order within, Int.toNat_natCast] at position
    rw [offsetForPositionForComplexText]
    cases direction : run.rtl with
    | false =>
      simp only [direction, Bool.false_eq_true, if_false] at position ⊢
      rw [← add_left_cancel position, found]
    | true =>
      simp only [direction, if_true] at position ⊢
      have delta : -((x : F) - floatWidthForComplexText (some font) run) =
          font.width (run.characters.take offset) := by
        rw [floatWidthForComplexText, addWidths_eq, zero_add, ← add_left_cancel position]
        ring
      rw [offsetBackwards_eq, delta, found]
  rw [finds]
  refine ⟨n_le, fun end' order' within' => ?_⟩
  rw [← position, caret_eq (by omega) order' within', caret_eq (by omega) order within,
    Int.toNat_natCast, Int.toNat_natCast, same]

/-- Complex text is drawn in the boxes that its selection covers, the selections of neighbouring ranges
are neighbours, the whole run has its measured width, and a caret is found at its position. -/
theorem complexText_agrees (font : Font F) (widths : ∀ c, 0 ≤ font.charWidth c) (scale : 0 ≤ font.scale)
    (run : TextRun) (point : IntPoint) :
    (∀ from_ to_ : Int, 0 ≤ from_ → from_ < to_ → to_ ≤ run.characters.length →
      let rect := selectionRectForComplexText (some font) run point (font.ascent + font.descent) from_ to_
      let boxes := drawnBoxes (some font) run point.x (point.y + font.ascent) from_ to_
      Tiles boxes rect.x rect.right ∧ ∀ box ∈ boxes, box.y = rect.y ∧ box.height = rect.height) ∧
    (∀ (h from_ middle to_ : Int), 0 ≤ from_ → from_ < middle → middle < to_ →
      to_ ≤ run.characters.length →
      let before := selectionRectForComplexText (some font) run point h from_ middle
      let after := selectionRectForComplexText (some font) run point h middle to_
      if run.rtl then after.right = before.x else before.right = after.x) ∧
    (∀ h : Int, (selectionRectForComplexText (some font) run point h 0 run.characters.length).width =
      floatWidthForComplexText (some font) run) ∧
    ∀ (h : Int) (offset : Nat) (end_ x : Int), offset < end_ → end_ ≤ run.characters.length →
      caret run (selectionRectForComplexText (some font) run point h offset end_) = point.x + x →
      let found := offsetForPositionForComplexText (some font) run x true
      found ≤ offset ∧ ∀ end' : Int, found < end' → end' ≤ run.characters.length →
        caret run (selectionRectForComplexText (some font) run point h found end') = point.x + x := by
  have positive : ∀ c, 0 ≤ font.advance c := by
    intro c
    rw [advance]
    split
    · exact le_refl 0
    · exact mul_nonneg (widths _) scale
  refine ⟨fun from_ to_ start order within => ⟨tiles_drawnBoxes _ start order within, ?_⟩, ?_, ?_, ?_⟩
  · intro box drawn
    obtain ⟨y, height⟩ := drawnBoxes_row _ _ box drawn
    rw [selectionRect_eq start order within]
    exact ⟨by rw [y, add_sub_cancel_right], height⟩
  · intro h from_ middle to_ start order order' within
    dsimp only
    have split := font.width_split run (le_refl middle)
    have nothing : part run middle middle = [] := by rw [part, Nat.sub_self, List.take_zero]
    rw [nothing, width_nil, add_zero] at split
    rw [selectionRect_right start order (by omega), selectionRect_right (by omega) order' within,
      selectionRect_eq start order (by omega), selectionRect_eq (by omega) order' within, ← split]
    cases run.rtl with
    | false =>
      simp only [Bool.false_eq_true, if_false]
      rw [add_sub_cancel_right]
    | true =>
      simp only [if_true]
      rw [add_sub_cancel_left]
  · intro h
    rw [floatWidthForComplexText, addWidths_eq, zero_add]
    by_cases empty : run.characters = []
    · rw [selectionRectForComplexText, refuses, empty]
      rfl
    · have length := List.length_pos_iff.mpr empty
      rw [selectionRect_eq (le_refl 0) (by omega) (le_refl _), part]
      simp only [Int.toNat_natCast, Int.toNat_zero, List.drop_zero, Nat.sub_zero, List.take_length]
  · intro h offset end_ x order within position
    exact caret_offsetForPosition positive point h order within position

/-- Every character is one unit wide, but a caret after an ignored one is found before it. -/
theorem complexText_agrees_ignored :
    let font : Font ℚ := ⟨fun _ => 1, 1, 1, 0⟩
    let run : TextRun := ⟨[0x41, 0x200b, 0x42], true⟩
    offsetForPositionForComplexText (some font) run 1 true ≤ 2 ∧
      caret run (selectionRectForComplexText (some font) run ⟨5, 7⟩ 1
        (offsetForPositionForComplexText (some font) run 1 true) 3) = (5 : Int) + (1 : Int) := by
  intro font run
  have agrees := font.complexText_agrees (fun _ => zero_le_one) zero_le_one run ⟨5, 7⟩
  have position : caret run (selectionRectForComplexText (some font) run ⟨5, 7⟩ 1 (2 : Nat) 3) =
      (5 : Int) + (1 : Int) := by
    decide +kernel
  obtain ⟨before, same⟩ := agrees.2.2.2 1 2 3 1 (by decide) (by decide) position
  exact ⟨before, same 3 (by omega) (by decide)⟩

end

end

end Font

end WkcBrowser.Graphics
