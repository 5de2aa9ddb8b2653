import Mathlib.Algebra.Order.Field.Basic
import Mathlib.Algebra.Order.Field.Rat
import Mathlib.Tactic.FieldSimp
import Mathlib.Tactic.Linarith
import Mathlib.Tactic.Ring
import Mathlib.Algebra.GroupWithZero.Nat
import WkcBrowser.Lib.ClosedLine

/-! `PathPolygon` of the WKC port's `PlatformPathWKC.cpp`, with coordinates that are exact. The test
whether a point is inside is compared with the ray that goes from the point along `y`. -/

namespace WkcBrowser.Graphics

/-- `PathPoint`, and a `FloatPoint` -/
structure PathPoint (K : Type) where
  x : K
  y : K
deriving DecidableEq

abbrev Point := PathPoint Rat

namespace PathPolygon
open Lib

/-! The crossings of a ray. -/

/-- Where a line through two points is above `x`. -/
def heightAt (a b : Point) (x : Rat) : Rat := (b.y - a.y) / (b.x - a.x) * (x - a.x) + a.y

/-- The ray from the point crosses an edge: one end is left of it and the other is not, and the
edge is above the point. -/
def crosses (point : Point) (edge : Point × Point) : Bool :=
  (decide (edge.1.x < point.x) != decide (edge.2.x < point.x)) &&
    decide (point.y < heightAt edge.1 edge.2 point.x)

def crossings (polygon : List Point) (point : Point) : Nat :=
  (closedEdges polygon).countP (crosses point)

/-- The point is in line with the ends and in the box that they span. -/
def OnSegment (point : Point) (edge : Point × Point) : Prop :=
  (edge.2.x - edge.1.x) * (point.y - edge.1.y) = (edge.2.y - edge.1.y) * (point.x - edge.1.x) ∧
    min edge.1.x edge.2.x ≤ point.x ∧ point.x ≤ max edge.1.x edge.2.x ∧
    min edge.1.y edge.2.y ≤ point.y ∧ point.y ≤ max edge.1.y edge.2.y

instance (point : Point) (edge : Point × Point) : Decidable (OnSegment point edge) :=
  inferInstanceAs (Decidable (_ ∧ _))

def OnBoundary (polygon : List Point) (point : Point) : Prop :=
  ∃ edge ∈ closedEdges polygon, OnSegment point edge

instance (polygon : List Point) (point : Point) : Decidable (OnBoundary polygon point) :=
  inferInstanceAs (Decidable (∃ edge ∈ closedEdges polygon, OnSegment point edge))

/-! The test of the source. -/

/-- The search from a vertex back to where the line came from: whether that is left of it, when a
vertex off the line is found. There is nothing to read behind the last vertex. -/
def lookBack (vertices : List Point) (x : Rat) (jLast : Nat) : (steps : Nat) → (j : Nat) →
    Option (Option Bool)
  | 0, _ => some none
  | steps + 1, j => do
    let j := if j = 0 then vertices.length else j - 1
    let vertex ← vertices[j]?
    if vertex.x ≠ x then some (some (decide (¬vertex.x > x)))
    else if j ≠ jLast then lookBack vertices x jLast steps j
    else some none

/-- The variables of the loop. -/
structure Scan where
  point1 : Point
  /-- `none` when it is -1 -/
  wasNegative : Option Bool
  intersected : Nat

/-- The loop over the vertices from the one with index `i` on. `none` stands for a read that is
out of bounds. -/
def scan (vertices : List Point) (point : Point) : List Point → (i : Nat) → Scan → Option Bool
  | [], _, s => some (s.intersected % 2 = 1)
  | point2 :: rest, i, s =>
    if s.point1.x ≠ point.x then
      if point2.x = point.x then
        scan vertices point rest (i + 1)
          { s with point1 := point2, wasNegative := some (s.point1.x < point.x) }
      else if decide (point2.x < point.x) != decide (s.point1.x < point.x) then
        let y := (point2.y - s.point1.y) / (point2.x - s.point1.x) * (point.x - s.point1.x) + s.point1.y
        scan vertices point rest (i + 1)
          { s with
            point1 := point2
            intersected := if y ≥ point.y then s.intersected + 1 else s.intersected }
      else scan vertices point rest (i + 1) { s with point1 := point2 }
    else if s.point1.y = point.y then some true
    else if s.point1.y > point.y then
      if point2.x = point.x then
        if point2.y ≤ point.y then some true
        else scan vertices point rest (i + 1) { s with point1 := point2 }
      else do
        let wasNegative ← match s.wasNegative with
          | some negative => some (some negative)
          | none => lookBack vertices point.x i (vertices.length + 1) i
        match wasNegative with
        | none => some false
        | some negative =>
          scan vertices point rest (i + 1)
            { point1 := point2
              wasNegative := some negative
              intersected :=
                if (if negative then point2.x > point.x else point2.x < point.x) then s.intersected + 1
                else s.intersected }
    else if point2.x = point.x ∧ point2.y ≥ point.y then some true
    else scan vertices point rest (i + 1) { s with point1 := point2 }

/-- `PathPolygon::contains` -/
def contains (vertices : List Point) (point : Point) : Option Bool :=
  if vertices.length < 3 then some false
  else do
    let last ← vertices.getLast?
    scan vertices point vertices 0 { point1 := last, wasNegative := none, intersected := 0 }

/-! What an edge off the boundary does. -/

theorem heightAt_swap (a b : Point) (x : Rat) (apart : a.x ≠ b.x) : heightAt a b x = heightAt b a x := by
  have forth : b.x - a.x ≠ 0 := sub_ne_zero.mpr apart.symm
  have back : a.x - b.x ≠ 0 := sub_ne_zero.mpr apart
  unfold heightAt
  field_simp
  ring

theorem heightAt_end (a b : Point) (apart : a.x ≠ b.x) : heightAt a b b.x = b.y := by
  have forth : b.x - a.x ≠ 0 := sub_ne_zero.mpr apart.symm
  unfold heightAt
  rw [div_mul_cancel₀ _ forth, sub_add_cancel]

theorem heightAt_start (a b : Point) : heightAt a b a.x = a.y := by
  unfold heightAt
  rw [sub_self, mul_zero, zero_add]

end PathPolygon

end WkcBrowser.Graphics

/-! `drawPolygons`, which sizes its buffer of points in one loop over the polygons and fills it in another. -/

namespace WkcBrowser.Graphics

inductive DrawType where
  | fill
  | stroke
  | clip
deriving DecidableEq

def cPointsBufferMaxItems : Nat := 1024

/-- What the second loop has written, with `none` for the terminator, and the numbers of points that it has
handed to a peer. -/
structure Drawing (K : Type) where
  idx : Nat := 0
  written : List (Nat × Option (PathPoint K)) := []
  drawn : List Nat := []

namespace Drawing

section
variable {K : Type} [BEq K] (type : DrawType)

/-- What the first loop counts. -/
def counted (polygon : List (PathPoint K)) : Nat :=
  if polygon.length = 0 then 0
  else if type = .fill ∨ type = .clip then
    if polygon.length ≤ 2 then 0 else polygon.length + 2
  else polygon.length

def totalPoints (polygons : List (List (PathPoint K))) : Nat :=
  polygons.foldl (fun total polygon => total + counted type polygon) 0

def capacity (totalPoints : Nat) : Nat :=
  if totalPoints > cPointsBufferMaxItems then totalPoints else cPointsBufferMaxItems

/-- The last point is another one than the first. -/
def isOpen (points : List (PathPoint K)) : Bool :=
  match points.head?, points.getLast? with
  | some first, some last => last.x != first.x || last.y != first.y
  | _, _ => false

/-- The points are read back from the buffer as they were written. -/
def drawPolygon (mapPoint : PathPoint K → PathPoint K) (s : Drawing K) (polygon : List (PathPoint K)) :
    Drawing K :=
  if polygon.length = 0 then s
  else
    let points := polygon.map mapPoint
    let copied := (points.zipIdx s.idx).map fun (point, i) => (i, some point)
    if type = .fill ∨ type = .clip then
      let closing := if isOpen points then [(s.idx + polygon.length, points.head?)] else []
      let npoints := polygon.length + closing.length
      { s with
        idx := s.idx + npoints + 1
        written := s.written ++ copied ++ closing ++ [(s.idx + npoints, none)] }
    else { idx := 0, written := s.written ++ copied, drawn := s.drawn ++ [polygon.length] }

/-- `callocs` says whether there is memory, and `mapPoint` is the transformation or none. -/
def drawPolygons (callocs : Nat → Bool) (mapPoint : PathPoint K → PathPoint K)
    (polygons : List (List (PathPoint K))) : Drawing K :=
  let total := totalPoints type polygons
  if total = 0 then {}
  else if total > cPointsBufferMaxItems && !callocs total then {}
  else
    let s := polygons.foldl (drawPolygon type mapPoint) {}
    if type = .stroke then s else { s with drawn := s.drawn ++ [s.idx] }

end

section
variable {K : Type}

/-- All that is written and handed on is inside the buffer. -/
def Fits (s : Drawing K) (capacity : Nat) : Prop :=
  (∀ entry ∈ s.written, entry.1 < capacity) ∧ ∀ npoints ∈ s.drawn, npoints ≤ capacity

theorem totalPoints_eq (type : DrawType) (polygons : List (List (PathPoint K))) :
    totalPoints type polygons = (polygons.map (counted type)).sum := by
  rw [totalPoints, List.sum_eq_foldl, List.foldl_map]

variable [BEq K]

/-- What a polygon takes of the buffer when it is filled. -/
def width (mapPoint : PathPoint K → PathPoint K) (polygon : List (PathPoint K)) : Nat :=
  if polygon.length = 0 then 0 else polygon.length + (isOpen (polygon.map mapPoint)).toNat + 1

/-- What polygons of one or two points take, which the first loop leaves out. -/
def degenerate (mapPoint : PathPoint K → PathPoint K) (polygons : List (List (PathPoint K))) : Nat :=
  (polygons.map fun polygon => if polygon.length ≤ 2 then width mapPoint polygon else 0).sum

/-- The polygons for which the first loop counts a closing point too much. -/
def closed (mapPoint : PathPoint K → PathPoint K) (polygons : List (List (PathPoint K))) : Nat :=
  polygons.countP fun polygon => 2 < polygon.length && !isOpen (polygon.map mapPoint)

variable {type : DrawType} {mapPoint : PathPoint K → PathPoint K} {polygons : List (List (PathPoint K))}
variable {s : Drawing K} {polygon : List (PathPoint K)}

theorem width_sum (filled : type = .fill ∨ type = .clip) :
    totalPoints type polygons + degenerate mapPoint polygons =
      (polygons.map (width mapPoint)).sum + closed mapPoint polygons := by
  rw [totalPoints_eq]
  induction polygons with
  | nil => rfl
  | cons polygon polygons ih =>
    have one : counted type polygon + (if polygon.length ≤ 2 then width mapPoint polygon else 0) =
        width mapPoint polygon + (2 < polygon.length && !isOpen (polygon.map mapPoint)).toNat := by
      rw [counted, if_pos filled, width]
      by_cases short : polygon.length ≤ 2
      · have long : ¬2 < polygon.length := by omega
        simp [short, long]
      · have long : 2 < polygon.length := by omega
        have some_point : polygon.length ≠ 0 := by omega
        cases isOpen (polygon.map mapPoint) <;> simp [short, long, some_point]
    rw [degenerate, closed] at ih ⊢
    rw [List.map_cons, List.sum_cons, List.map_cons, List.sum_cons, List.map_cons, List.sum_cons,
      List.countP_cons]
    have turned : (if (2 < polygon.length && !isOpen (polygon.map mapPoint)) = true then 1 else 0) =
        (2 < polygon.length && !isOpen (polygon.map mapPoint)).toNat := by
      cases 2 < polygon.length && !isOpen (polygon.map mapPoint) <;> rfl
    rw [turned]
    omega

/-- Filled polygons are written one behind the other. -/
theorem drawPolygon_fill (filled : type = .fill ∨ type = .clip)
    (dense : s.written.map Prod.fst = List.range' 0 s.idx) :
    let s' := drawPolygon type mapPoint s polygon
    s'.idx = s.idx + width mapPoint polygon ∧ s'.written.map Prod.fst = List.range' 0 s'.idx ∧
      s'.drawn = s.drawn := by
  unfold drawPolygon width
  by_cases none : polygon.length = 0
  · rw [if_pos none, if_pos none]
    exact ⟨rfl, dense, rfl⟩
  · rw [if_neg none, if_neg none, if_pos filled]
    have copied : (((polygon.map mapPoint).zipIdx s.idx).map fun x => (x.2, some x.1)).map Prod.fst =
        List.range' s.idx polygon.length := by
      rw [List.map_map]
      exact (List.zipIdx_map_snd ..).trans (by rw [List.length_map])
    have front : List.range' 0 s.idx ++ List.range' s.idx polygon.length =
        List.range' 0 (s.idx + polygon.length) := by
      have parts := List.range'_append_1 (s := 0) (m := s.idx) (n := polygon.length)
      rwa [Nat.zero_add] at parts
    have further (n : Nat) : List.range' 0 n ++ [n] = List.range' 0 (n + 1) := by
      rw [List.range'_concat, Nat.one_mul, Nat.zero_add]
    cases isOpen (polygon.map mapPoint) with
    | false =>
      refine ⟨rfl, ?_, rfl⟩
      dsimp only
      rw [if_neg Bool.false_ne_true, List.append_nil, List.map_append, List.map_append, dense, copied, front]
      exact further _
    | true =>
      refine ⟨rfl, ?_, rfl⟩
      dsimp only
      rw [if_pos rfl, List.map_append, List.map_append, List.map_append, dense, copied, front]
      exact (congrArg (· ++ _) (further _)).trans (further _)

theorem foldl_fill (filled : type = .fill ∨ type = .clip)
    (dense : s.written.map Prod.fst = List.range' 0 s.idx) :
    let s' := polygons.foldl (drawPolygon type mapPoint) s
    s'.idx = s.idx + (polygons.map (width mapPoint)).sum ∧ s'.written.map Prod.fst = List.range' 0 s'.idx ∧
      s'.drawn = s.drawn := by
  induction polygons generalizing s with
  | nil => exact ⟨rfl, dense, rfl⟩
  | cons polygon polygons ih =>
    obtain ⟨idx, dense', drawn⟩ := @drawPolygon_fill _ _ _ mapPoint _ polygon filled dense
    obtain ⟨idx', dense'', drawn'⟩ := ih dense'
    refine ⟨?_, dense'', drawn'.trans drawn⟩
    rw [List.map_cons, List.sum_cons, ← Nat.add_assoc, ← idx]
    exact idx'

theorem drawPolygon_stroke (some_point : ¬polygon.length = 0) :
    drawPolygon .stroke mapPoint s polygon =
      { idx := 0
        written := s.written ++ ((polygon.map mapPoint).zipIdx s.idx).map fun (point, i) => (i, some point)
        drawn := s.drawn ++ [polygon.length] } := by
  have stroked : ¬(DrawType.stroke = .fill ∨ DrawType.stroke = .clip) := by decide
  rw [drawPolygon, if_neg some_point, if_neg stroked]

/-- A polygon that is stroked begins at the start of the buffer. -/
theorem foldl_stroke {size : Nat} (start : s.idx = 0) (fits : s.Fits size)
    (small : ∀ polygon ∈ polygons, polygon.length ≤ size) :
    (polygons.foldl (drawPolygon .stroke mapPoint) s).Fits size := by
  induction polygons generalizing s with
  | nil => exact fits
  | cons polygon polygons ih =>
    obtain ⟨here, later⟩ := List.forall_mem_cons.mp small
    by_cases none : polygon.length = 0
    · have same : drawPolygon .stroke mapPoint s polygon = s := if_pos none
      rw [List.foldl_cons, same]
      exact ih start fits later
    · rw [List.foldl_cons, drawPolygon_stroke none]
      refine ih rfl ⟨fun entry member => ?_, fun npoints member => ?_⟩ later
      · rcases List.mem_append.mp member with before | copied
        · exact fits.1 entry before
        · obtain ⟨⟨point, i⟩, listed, rfl⟩ := List.mem_map.mp copied
          have inside := (List.mem_zipIdx listed).2.1
          rw [start, Nat.zero_add, List.length_map] at inside
          exact Nat.lt_of_lt_of_le inside here
      · rcases List.mem_append.mp member with before | handed
        · exact fits.2 npoints before
        · rw [List.mem_singleton.mp handed]
          exact here

omit [BEq K] in
theorem length_le_total {polygon : List (PathPoint K)} (member : polygon ∈ polygons) :
    polygon.length ≤ totalPoints .stroke polygons := by
  rw [totalPoints_eq]
  have one : counted .stroke polygon = polygon.length := by
    have stroked : ¬(DrawType.stroke = .fill ∨ DrawType.stroke = .clip) := by decide
    rw [counted, if_neg stroked]
    split_ifs with none
    · exact none.symm
    · rfl
  obtain ⟨before, behind, rfl⟩ := List.append_of_mem member
  rw [List.map_append, List.map_cons, List.sum_append, List.sum_cons, one]
  omega

/-- What is filled fits when its widths do. -/
theorem fill_fits_iff (filled : type = .fill ∨ type = .clip) {callocs : Nat → Bool}
    (zero : ¬totalPoints type polygons = 0)
    (failed : ¬(totalPoints type polygons > cPointsBufferMaxItems && !callocs (totalPoints type polygons)) = true)
    (size : Nat) :
    (drawPolygons type callocs mapPoint polygons).Fits size ↔ (polygons.map (width mapPoint)).sum ≤ size := by
  have stroked : ¬type = .stroke := by
    rcases filled with rfl | rfl <;> decide
  have start : ({} : Drawing K).written.map Prod.fst = List.range' 0 ({} : Drawing K).idx := rfl
  obtain ⟨idx, dense, drawn⟩ := @foldl_fill _ _ _ mapPoint polygons _ filled start
  rw [drawPolygons, if_neg zero, if_neg failed, if_neg stroked]
  generalize polygons.foldl (drawPolygon type mapPoint) {} = s at idx dense drawn ⊢
  have ends : s.idx = (polygons.map (width mapPoint)).sum := idx.trans (Nat.zero_add _)
  rw [← ends]
  constructor
  · exact fun fits => fits.2 s.idx (List.mem_append_right _ (List.mem_singleton_self _))
  · intro le
    refine ⟨fun entry member => ?_, fun npoints member => ?_⟩
    · have place : entry.1 ∈ s.written.map Prod.fst := List.mem_map_of_mem member
      rw [dense, List.mem_range'_1, Nat.zero_add] at place
      exact Nat.lt_of_lt_of_le place.2 le
    · change npoints ∈ s.drawn ++ [s.idx] at member
      rw [drawn] at member
      rw [List.mem_singleton.mp member]
      exact le

/-- What is written fits exactly when nothing is filled or the short polygons find room in what is left of the
buffer and in the places of closing points that closed polygons do not need. -/
theorem fits_iff (type : DrawType) (callocs : Nat → Bool) (mapPoint : PathPoint K → PathPoint K)
    (polygons : List (List (PathPoint K))) :
    (drawPolygons type callocs mapPoint polygons).Fits (capacity (totalPoints type polygons)) ↔
      type = .stroke ∨ totalPoints type polygons = 0 ∨
      cPointsBufferMaxItems < totalPoints type polygons ∧ callocs (totalPoints type polygons) = false ∨
      degenerate mapPoint polygons ≤
        closed mapPoint polygons + (cPointsBufferMaxItems - totalPoints type polygons) := by
  have nothing (size : Nat) : ({} : Drawing K).Fits size :=
    ⟨fun _ never => absurd never List.not_mem_nil, fun _ never => absurd never List.not_mem_nil⟩
  by_cases zero : totalPoints type polygons = 0
  · rw [drawPolygons, if_pos zero]
    exact iff_of_true (nothing _) (.inr (.inl zero))
  by_cases failed : (totalPoints type polygons > cPointsBufferMaxItems && !callocs (totalPoints type polygons)) = true
  · rw [drawPolygons, if_neg zero, if_pos failed]
    rw [Bool.and_eq_true, decide_eq_true_eq, Bool.not_eq_true'] at failed
    exact iff_of_true (nothing _) (.inr (.inr (.inl failed)))
  by_cases stroked : type = .stroke
  · subst stroked
    rw [drawPolygons, if_neg zero, if_neg failed, if_pos rfl]
    refine iff_of_true (foldl_stroke rfl (nothing _) fun polygon member => ?_) (.inl rfl)
    have counted := length_le_total member
    unfold capacity
    split_ifs <;> omega
  · have filled : type = .fill ∨ type = .clip := by
      cases type with
      | fill => exact .inl rfl
      | stroke => exact absurd rfl stroked
      | clip => exact .inr rfl
    have sums := @width_sum _ _ _ mapPoint polygons filled
    rw [fill_fits_iff filled zero failed, capacity]
    rw [Bool.and_eq_true, decide_eq_true_eq, Bool.not_eq_true'] at failed
    simp only [stroked, zero, failed, false_or]
    split_ifs with large <;> omega

/-- A triangle and lines of two points, which are counted for nothing. -/
def triangleAndLines : List (List (PathPoint Nat)) :=
  [⟨0, 0⟩, ⟨4, 0⟩, ⟨4, 4⟩] :: List.replicate 400 [⟨0, 0⟩, ⟨1, 1⟩]

theorem not_fits : ¬(drawPolygons .fill (fun _ => true) id triangleAndLines).Fits
    (capacity (totalPoints .fill triangleAndLines)) := by
  have total : totalPoints .fill triangleAndLines = 5 := by
    rw [totalPoints_eq, triangleAndLines, List.map_cons, List.map_replicate, List.sum_cons,
      List.sum_replicate]
    rfl
  rw [fill_fits_iff (.inl rfl) (by rw [total]; decide) (by rw [total]; decide), total, triangleAndLines,
    List.map_cons, List.map_replicate, List.sum_cons, List.sum_replicate]
  decide

end

end Drawing

end WkcBrowser.Graphics
