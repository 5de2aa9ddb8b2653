import Mathlib.Tactic.Positivity
import WkcBrowser.Graphics.PathPolygon

/-! When the test whether a point is inside a polygon tells the parity of the crossings of a ray. -/

namespace WkcBrowser.Graphics.PathPolygon
open Lib

variable {a b point : Point}

/-! Edges off the point. -/

/-- The part of an edge that is gone at `x`. -/
theorem heightAt_eq (a b : Point) (x : Rat) :
    heightAt a b x = a.y + (x - a.x) / (b.x - a.x) * (b.y - a.y) := by
  unfold heightAt
  ring

/-- The ends of an edge are on different sides of the line through the point. -/
def Apart (point a b : Point) : Prop := (decide (a.x < point.x) != decide (b.x < point.x)) = true

theorem apart_iff : Apart point a b ↔ a.x < point.x ∧ point.x ≤ b.x ∨ b.x < point.x ∧ point.x ≤ a.x := by
  unfold Apart
  by_cases first : a.x < point.x
  · by_cases second : b.x < point.x
    · simp [first, second]
    · simp [first, second, not_lt.mp second]
  · by_cases second : b.x < point.x
    · simp [first, second, not_lt.mp first]
    · simp [first, second]

theorem part_mem (apart : Apart point a b) :
    0 ≤ (point.x - a.x) / (b.x - a.x) ∧ (point.x - a.x) / (b.x - a.x) ≤ 1 := by
  rcases apart_iff.mp apart with ⟨left, right⟩ | ⟨left, right⟩
  · have span : 0 < b.x - a.x := by linarith
    exact ⟨div_nonneg (by linarith) span.le, (div_le_one span).mpr (by linarith)⟩
  · have span : b.x - a.x < 0 := by linarith
    exact ⟨div_nonneg_of_nonpos (by linarith) span.le, (div_le_one_of_neg span).mpr (by linarith)⟩

theorem heightAt_mem (apart : Apart point a b) :
    min a.y b.y ≤ heightAt a b point.x ∧ heightAt a b point.x ≤ max a.y b.y := by
  obtain ⟨nonneg, le_one⟩ := part_mem apart
  rw [heightAt_eq]
  rcases le_total a.y b.y with up | down
  · rw [min_eq_left up, max_eq_right up]
    constructor <;> nlinarith
  · rw [min_eq_right down, max_eq_left down]
    constructor <;> nlinarith

theorem heightAt_ne (apart : Apart point a b) (off : ¬OnSegment point (a, b)) :
    heightAt a b point.x ≠ point.y := by
  intro same
  apply off
  obtain ⟨above, below⟩ := heightAt_mem apart
  rw [same] at above below
  have sides := apart_iff.mp apart
  have span : b.x - a.x ≠ 0 := by
    intro none
    rcases sides with ⟨left, right⟩ | ⟨left, right⟩ <;> linarith
  refine ⟨?_, ?_, ?_, above, below⟩
  · rw [← same, heightAt]
    field_simp
    ring
  · rcases sides with ⟨left, right⟩ | ⟨left, right⟩
    · exact (min_le_left _ _).trans left.le
    · exact (min_le_right _ _).trans left.le
  · rcases sides with ⟨left, right⟩ | ⟨left, right⟩
    · exact right.trans (le_max_right _ _)
    · exact right.trans (le_max_left _ _)

theorem crosses_of_apart (apart : Apart point a b) :
    crosses point (a, b) = decide (point.y < heightAt a b point.x) := by
  unfold Apart at apart
  rw [crosses, apart, Bool.true_and]

theorem crosses_of_not_apart (together : ¬Apart point a b) : crosses point (a, b) = false := by
  unfold Apart at together
  rw [crosses, Bool.eq_false_of_not_eq_true together, Bool.false_and]

/-- Both ends of an edge on the line through the point are on one side of it. -/
theorem same_side (first : a.x = point.x) (second : b.x = point.x) (off : ¬OnSegment point (a, b)) :
    point.y < a.y ∧ point.y < b.y ∨ a.y < point.y ∧ b.y < point.y := by
  have inBox : ¬(min a.y b.y ≤ point.y ∧ point.y ≤ max a.y b.y) := by
    intro inside
    apply off
    refine ⟨?_, ?_, ?_, inside.1, inside.2⟩
    · rw [first, second, sub_self, zero_mul, mul_zero]
    · rw [first, second, min_self]
    · rw [first, second, max_self]
  rcases lt_or_ge point.y (min a.y b.y) with under | above
  · exact Or.inl (lt_min_iff.mp under)
  · exact Or.inr (max_lt_iff.mp (not_le.mp fun within => inBox ⟨above, within⟩))

theorem start_ne (online : a.x = point.x) (off : ¬OnSegment point (a, b)) : a.y ≠ point.y := by
  intro same
  apply off
  refine ⟨?_, ?_, ?_, ?_, ?_⟩
  · rw [← online, ← same, sub_self, mul_zero, sub_self, mul_zero]
  · exact online ▸ min_le_left _ _
  · exact online ▸ le_max_left _ _
  · exact same ▸ min_le_left _ _
  · exact same ▸ le_max_left _ _

/-! One turn of the loop. -/

section
variable {vertices rest : List Point} {point2 : Point} {i : Nat} {s : Scan}

/-- A crossing that is not counted yet: the line came from the left to the ray. -/
def pending (point : Point) (s : Scan) : Nat :=
  if s.point1.x = point.x ∧ point.y < s.point1.y ∧ s.wasNegative = some true then 1 else 0

/-- On the ray it is known where the line came from. -/
def Known (point : Point) (s : Scan) : Prop :=
  s.point1.x = point.x → point.y < s.point1.y → s.wasNegative.isSome = true

theorem pending_off (off : s.point1.x ≠ point.x) : pending point s = 0 :=
  if_neg fun pending => off pending.1

theorem pending_below (below : s.point1.y ≤ point.y) : pending point s = 0 :=
  if_neg fun pending => absurd pending.2.1 (not_lt.mpr below)

attribute [local simp] scan

theorem scan_toLine (off : s.point1.x ≠ point.x) (online : point2.x = point.x) :
    scan vertices point (point2 :: rest) i s = scan vertices point rest (i + 1)
      { s with point1 := point2, wasNegative := some (s.point1.x < point.x) } := by
  rw [scan, if_pos off, if_pos online]

theorem scan_across (off : s.point1.x ≠ point.x) (off2 : point2.x ≠ point.x)
    (apart : Apart point s.point1 point2) :
    scan vertices point (point2 :: rest) i s = scan vertices point rest (i + 1)
      { s with
        point1 := point2
        intersected := if heightAt s.point1 point2 point.x ≥ point.y then s.intersected + 1
          else s.intersected } := by
  have changed : (decide (point2.x < point.x) != decide (s.point1.x < point.x)) = true := by
    rw [bne_comm]
    exact apart
  rw [scan, if_pos off, if_neg off2, if_pos changed]
  rfl

theorem scan_along (off : s.point1.x ≠ point.x) (off2 : point2.x ≠ point.x)
    (together : ¬Apart point s.point1 point2) :
    scan vertices point (point2 :: rest) i s =
      scan vertices point rest (i + 1) { s with point1 := point2 } := by
  have same : ¬(decide (point2.x < point.x) != decide (s.point1.x < point.x)) = true := by
    rw [bne_comm]
    exact together
  rw [scan, if_pos off, if_neg off2, if_neg same]

theorem scan_onRay (online : s.point1.x = point.x) (above : point.y < s.point1.y)
    (online2 : point2.x = point.x) (above2 : point.y < point2.y) :
    scan vertices point (point2 :: rest) i s =
      scan vertices point rest (i + 1) { s with point1 := point2 } := by
  rw [scan, if_neg (not_not.mpr online), if_neg above.ne', if_pos above, if_pos online2,
    if_neg (not_le.mpr above2)]

theorem scan_leave (online : s.point1.x = point.x) (above : point.y < s.point1.y)
    (off2 : point2.x ≠ point.x) {negative : Bool} (from_ : s.wasNegative = some negative) :
    scan vertices point (point2 :: rest) i s = scan vertices point rest (i + 1)
      { point1 := point2
        wasNegative := some negative
        intersected := if (if negative then point2.x > point.x else point2.x < point.x)
          then s.intersected + 1 else s.intersected } := by
  rw [scan, if_neg (not_not.mpr online), if_neg above.ne', if_pos above, if_neg off2, from_]
  rfl

theorem scan_below (online : s.point1.x = point.x) (below : s.point1.y < point.y)
    (out : ¬(point2.x = point.x ∧ point2.y ≥ point.y)) :
    scan vertices point (point2 :: rest) i s =
      scan vertices point rest (i + 1) { s with point1 := point2 } := by
  rw [scan, if_neg (not_not.mpr online), if_neg below.ne, if_neg below.le.not_gt, if_neg out]

/-- What is counted and what is pending grows by the crossing of the edge, up to even numbers. -/
theorem scan_cons (known : Known point s) (off : ¬OnSegment point (s.point1, point2)) :
    ∃ s', scan vertices point (point2 :: rest) i s = scan vertices point rest (i + 1) s' ∧
      s'.point1 = point2 ∧ Known point s' ∧ (s'.intersected + pending point s') % 2 =
        (s.intersected + pending point s + (crosses point (s.point1, point2)).toNat) % 2 := by
  by_cases online : s.point1.x = point.x
  · have level := start_ne online off
    rcases lt_or_gt_of_ne level with below | above
    · -- below the point nothing is counted
      have none : crosses point (s.point1, point2) = false := by
        by_cases apart : Apart point s.point1 point2
        · rw [crosses_of_apart apart, ← online, heightAt_start]
          exact decide_eq_false below.le.not_gt
        · exact crosses_of_not_apart apart
      have next : point2.x = point.x → point2.y < point.y := by
        intro online2
        rcases same_side online online2 off with ⟨beyond, -⟩ | ⟨-, under⟩
        · exact absurd beyond below.le.not_gt
        · exact under
      refine ⟨_, scan_below online below fun both => absurd (next both.1) both.2.not_gt, rfl, ?_, ?_⟩
      · intro online2 above2
        exact absurd above2 (next online2).le.not_gt
      · have later : pending point { s with point1 := point2 } = 0 := by
          by_cases online2 : point2.x = point.x
          · exact pending_below (next online2).le
          · exact pending_off online2
        rw [later, pending_below below.le, none]
        rfl
    · by_cases online2 : point2.x = point.x
      · have above2 : point.y < point2.y := by
          rcases same_side online online2 off with ⟨-, beyond⟩ | ⟨under, -⟩
          · exact beyond
          · exact absurd above under.le.not_gt
        have none : crosses point (s.point1, point2) = false := by
          apply crosses_of_not_apart
          rw [apart_iff, online, online2]
          exact fun either => either.elim (fun both => lt_irrefl _ both.1) (fun both => lt_irrefl _ both.1)
        refine ⟨_, scan_onRay online above online2 above2, rfl, fun _ _ => known online above, ?_⟩
        have same : pending point { s with point1 := point2 } = pending point s := by
          unfold pending
          simp only [online, online2, above, above2, true_and]
        rw [same, none]
        rfl
      · obtain ⟨negative, from_⟩ := Option.isSome_iff_exists.mp (known online above)
        refine ⟨_, scan_leave online above online2 from_, rfl, ?_, ?_⟩
        · exact fun online2' => absurd online2' online2
        · rw [pending_off online2]
          have cross : crosses point (s.point1, point2) = decide (point2.x < point.x) := by
            rw [crosses, ← online, heightAt_start]
            simp only [lt_irrefl, decide_false, Bool.false_bne, decide_eq_true above, Bool.and_true]
          rw [cross, pending, from_]
          rcases lt_or_gt_of_ne online2 with left | right
          · cases negative
            · simp [online, above, left]
            · simp [online, above, left, left.le.not_gt]
              omega
          · cases negative
            · simp [online, above, right.le.not_gt]
            · simp [online, above, right, right.le.not_gt]
  · rw [pending_off online]
    by_cases online2 : point2.x = point.x
    · refine ⟨_, scan_toLine online online2, rfl, fun _ _ => rfl, ?_⟩
      have height : heightAt s.point1 point2 point.x = point2.y := by
        rw [← online2]
        exact heightAt_end _ _ (online2 ▸ online)
      rw [crosses, height, pending]
      rcases lt_or_gt_of_ne online with left | right
      · by_cases above : point.y < point2.y <;> simp [online2, left, above]
      · by_cases above : point.y < point2.y <;> simp [online2, right.le.not_gt, above]
    · by_cases apart : Apart point s.point1 point2
      · refine ⟨_, scan_across online online2 apart, rfl, fun online2' => absurd online2' online2, ?_⟩
        rw [pending_off online2, crosses_of_apart apart]
        rcases lt_or_gt_of_ne (heightAt_ne apart off) with below | above
        · rw [if_neg (not_le.mpr below), decide_eq_false below.le.not_gt]
          rfl
        · rw [if_pos above.le, decide_eq_true above]
          rfl
      · refine ⟨_, scan_along online online2 apart, rfl, fun online2' => absurd online2' online2, ?_⟩
        rw [pending_off online2, crosses_of_not_apart apart]
        rfl

/-- A loop that ends off the ray has counted the crossings, up to even numbers. -/
theorem scan_eq (known : Known point s) (off : ∀ edge ∈ edgesFrom s.point1 rest, ¬OnSegment point edge)
    (ends : ∀ last ∈ (s.point1 :: rest).getLast?, ¬(last.x = point.x ∧ point.y < last.y)) :
    scan vertices point rest i s = some (decide ((s.intersected + pending point s +
      (edgesFrom s.point1 rest).countP (crosses point)) % 2 = 1)) := by
  induction rest generalizing i s with
  | nil =>
    have none : pending point s = 0 :=
      if_neg fun pending => ends s.point1 rfl ⟨pending.1, pending.2.1⟩
    rw [scan, none]
    rfl
  | cons point2 rest ih =>
    obtain ⟨first, later⟩ := List.forall_mem_cons.mp off
    obtain ⟨s', turn, rfl, known', count⟩ := @scan_cons _ vertices rest _ i s known first
    have ends' : ∀ last ∈ (s'.point1 :: rest).getLast?, ¬(last.x = point.x ∧ point.y < last.y) := by
      rwa [List.getLast?_cons_cons] at ends
    rw [turn, ih known' later ends', edgesFrom_cons, List.countP_cons]
    have step : (crosses point (s.point1, s'.point1)).toNat =
        if crosses point (s.point1, s'.point1) = true then 1 else 0 := by
      cases crosses point (s.point1, s'.point1) <;> rfl
    rw [step] at count
    refine congrArg (fun n => some (decide (n = 1))) ?_
    omega

end

/-! A line that begins on the ray. -/

section
variable {vertices : List Point} {x : Rat}

/-- The search goes down to the first vertex and then behind the last. -/
theorem lookBack_none {i j steps : Nat} (down : j ≤ i) (within : i < vertices.length) (enough : j < steps)
    (online : ∀ k < j, ∀ vertex ∈ vertices[k]?, vertex.x = x) :
    lookBack vertices x i steps j = none := by
  induction j generalizing steps with
  | zero =>
    obtain ⟨steps, rfl⟩ := Nat.exists_eq_add_of_lt enough
    rw [Nat.zero_add, lookBack, if_pos rfl, List.getElem?_eq_none (le_refl _)]
    rfl
  | succ j ih =>
    obtain ⟨steps, rfl⟩ : ∃ more, steps = more + 1 := ⟨steps - 1, by omega⟩
    have inside : j < vertices.length := by omega
    have found : vertices[j]? = some vertices[j] := List.getElem?_eq_getElem inside
    have on : vertices[j].x = x := online j (Nat.lt_succ_self j) _ found
    rw [lookBack, if_neg (Nat.succ_ne_zero j), Nat.add_sub_cancel, found]
    dsimp only [Option.bind_eq_bind, Option.bind_some]
    rw [if_neg (not_not.mpr on), if_pos (by omega)]
    exact ih (by omega) (by omega) fun k below => online k (by omega)

end

section
variable {vertices rest : List Point} {i : Nat} {s : Scan}

/-- While the line stays on the ray nothing is counted. -/
theorem scan_stays (online : s.point1.x = point.x) (above : point.y < s.point1.y)
    (off : ∀ edge ∈ edgesFrom s.point1 rest, ¬OnSegment point edge)
    (all : ∀ vertex ∈ rest, vertex.x = point.x) :
    scan vertices point rest i s = some (decide (s.intersected % 2 = 1)) := by
  induction rest generalizing i s with
  | nil => rw [scan]
  | cons point2 rest ih =>
    obtain ⟨first, later⟩ := List.forall_mem_cons.mp off
    obtain ⟨online2, all'⟩ := List.forall_mem_cons.mp all
    have above2 : point.y < point2.y := by
      rcases same_side online online2 first with ⟨-, beyond⟩ | ⟨under, -⟩
      · exact beyond
      · exact absurd above under.le.not_gt
    rw [scan_onRay online above online2 above2]
    exact ih online2 above2 later all'

/-- When it leaves the ray, and it is not known where it came from, the search reads what is not
there. -/
theorem scan_outside {front : List Point} (whole : vertices = front ++ rest) (index : i = front.length)
    (before : ∀ vertex ∈ front, vertex.x = point.x) (online : s.point1.x = point.x)
    (above : point.y < s.point1.y) (unknown : s.wasNegative = none)
    (off : ∀ edge ∈ edgesFrom s.point1 rest, ¬OnSegment point edge)
    (leaves : ∃ vertex ∈ rest, vertex.x ≠ point.x) : scan vertices point rest i s = none := by
  induction rest generalizing i s front with
  | nil =>
    obtain ⟨vertex, member, -⟩ := leaves
    exact absurd member List.not_mem_nil
  | cons point2 rest ih =>
    obtain ⟨first, later⟩ := List.forall_mem_cons.mp off
    by_cases online2 : point2.x = point.x
    · have above2 : point.y < point2.y := by
        rcases same_side online online2 first with ⟨-, beyond⟩ | ⟨under, -⟩
        · exact beyond
        · exact absurd above under.le.not_gt
      rw [scan_onRay online above online2 above2]
      have whole' : vertices = (front ++ [point2]) ++ rest := by
        rw [whole, List.append_assoc]
        rfl
      have index' : i + 1 = (front ++ [point2]).length := by
        rw [index, List.length_append]
        rfl
      have before' : ∀ vertex ∈ front ++ [point2], vertex.x = point.x := by
        intro vertex member
        rcases List.mem_append.mp member with inFront | last
        · exact before vertex inFront
        · rw [List.mem_singleton.mp last, online2]
      have leaves' : ∃ vertex ∈ rest, vertex.x ≠ point.x := by
        obtain ⟨vertex, member, away⟩ := leaves
        rcases List.mem_cons.mp member with rfl | inRest
        · exact absurd online2 away
        · exact ⟨vertex, inRest, away⟩
      exact ih (s := { s with point1 := point2 }) whole' index' before' online2 above2 unknown later leaves'
    · have search : lookBack vertices point.x i (vertices.length + 1) i = none := by
        have inside : i < vertices.length := by
          rw [whole, index, List.length_append, List.length_cons]
          omega
        apply lookBack_none (le_refl i) inside (by omega)
        intro k below vertex found
        rw [whole, List.getElem?_append_left (index ▸ below)] at found
        exact before vertex (List.mem_of_getElem? found)
      rw [scan, if_neg (not_not.mpr online), if_neg above.ne', if_pos above, if_neg online2, unknown]
      dsimp only
      rw [search]
      rfl

end

/-! The whole test. -/

/-- The line begins and ends on the ray and is not only there. -/
def LastOnRay (polygon : List Point) (point : Point) : Prop :=
  3 ≤ polygon.length ∧ (∃ last ∈ polygon.getLast?, last.x = point.x ∧ point.y < last.y) ∧
    ∃ vertex ∈ polygon, vertex.x ≠ point.x

theorem even_crossings_of_short {polygon : List Point} (short : polygon.length < 3) (point : Point) :
    Even (crossings polygon point) := by
  rcases polygon with _ | ⟨a, _ | ⟨b, _ | ⟨c, rest⟩⟩⟩
  · exact Even.zero
  · have none : crosses point (a, a) = false :=
      crosses_of_not_apart (by rw [Apart, bne_self_eq_false]; exact Bool.false_ne_true)
    simp [crossings, closedEdges, none]
  · have same : crosses point (b, a) = crosses point (a, b) := by
      by_cases apart : Apart point a b
      · have back : Apart point b a := by rwa [Apart, bne_comm]
        rw [crosses_of_apart apart, crosses_of_apart back, heightAt_swap]
        intro none
        rw [apart_iff, none] at apart
        rcases apart with ⟨left, right⟩ | ⟨left, right⟩ <;> linarith
      · have back : ¬Apart point b a := by rwa [Apart, bne_comm]
        rw [crosses_of_not_apart apart, crosses_of_not_apart back]
    rw [crossings, closedEdges]
    simp only [List.getLast_cons_cons, List.getLast_singleton, edgesFrom_cons, edgesFrom_nil,
      List.countP_cons, List.countP_nil, same]
    exact ⟨_, by ring⟩
  · simp only [List.length_cons] at short
    omega

theorem contains_of_not_lastOnRay {polygon : List Point} (out : ¬LastOnRay polygon point)
    (off : ¬OnBoundary polygon point) :
    contains polygon point = some (decide (Odd (crossings polygon point))) := by
  unfold contains
  by_cases short : polygon.length < 3
  · rw [if_pos short]
    have even := even_crossings_of_short short point
    rw [decide_eq_false (Nat.not_odd_iff_even.mpr even)]
  · have filled : polygon ≠ [] := by
      rintro rfl
      exact short (by decide)
    have last : polygon.getLast? = some (polygon.getLast filled) := List.getLast?_eq_getLast_of_ne_nil filled
    have off' : ∀ edge ∈ edgesFrom (polygon.getLast filled) polygon, ¬OnSegment point edge := by
      rw [← closedEdges_of_getLast filled]
      exact fun edge member on => off ⟨edge, member, on⟩
    rw [if_neg short, last]
    dsimp only [Option.bind_eq_bind, Option.bind_some]
    by_cases onRay : (polygon.getLast filled).x = point.x ∧ point.y < (polygon.getLast filled).y
    · have all : ∀ vertex ∈ polygon, vertex.x = point.x := by
        intro vertex member
        by_contra away
        exact out ⟨not_lt.mp short, ⟨_, last, onRay⟩, vertex, member, away⟩
      have none : crossings polygon point = 0 := by
        apply List.countP_eq_zero.mpr
        intro edge member
        obtain ⟨first, second⟩ := mem_of_mem_closedEdges member
        rw [crosses, all _ first, all _ second, bne_self_eq_false, Bool.false_and]
        exact Bool.false_ne_true
      rw [scan_stays onRay.1 onRay.2 off' all, none]
      rfl
    · have ends : ∀ last ∈ (polygon.getLast filled :: polygon).getLast?,
          ¬(last.x = point.x ∧ point.y < last.y) := by
        intro vertex member
        rw [List.getLast?_cons, last, Option.getD_some] at member
        rw [← Option.some.inj member]
        exact onRay
      have known : Known point ⟨polygon.getLast filled, none, 0⟩ :=
        fun online above => absurd ⟨online, above⟩ onRay
      rw [scan_eq known off' ends, pending, if_neg fun pending => onRay ⟨pending.1, pending.2.1⟩,
        crossings, closedEdges_of_getLast filled, Nat.zero_add]
      simp only [Nat.odd_iff]

theorem contains_of_lastOnRay {polygon : List Point} (onRay : LastOnRay polygon point)
    (off : ¬OnBoundary polygon point) : contains polygon point = none := by
  obtain ⟨long, ⟨last, ends, online, above⟩, leaves⟩ := onRay
  have filled : polygon ≠ [] := by
    rintro rfl
    exact absurd long (by decide)
  have same : polygon.getLast filled = last := by
    rw [List.getLast?_eq_getLast_of_ne_nil filled] at ends
    exact Option.some.inj ends
  have off' : ∀ edge ∈ edgesFrom last polygon, ¬OnSegment point edge := by
    rw [← same, ← closedEdges_of_getLast filled]
    exact fun edge member on => off ⟨edge, member, on⟩
  rw [contains, if_neg (not_lt.mpr long), ends]
  have whole : polygon = [] ++ polygon := rfl
  exact scan_outside whole rfl (fun _ member => absurd member List.not_mem_nil) online above rfl off' leaves

/-- The test is right unless the last vertex is straight over the point. -/
theorem contains_iff (polygon : List Point) (point : Point) (off : ¬OnBoundary polygon point) :
    contains polygon point = some (decide (Odd (crossings polygon point))) ↔
      ¬LastOnRay polygon point := by
  constructor
  · intro right onRay
    rw [contains_of_lastOnRay onRay off] at right
    cases right
  · exact fun out => contains_of_not_lastOnRay out off

def square : List Point := [⟨0, 0⟩, ⟨4, 0⟩, ⟨4, 4⟩, ⟨0, 4⟩]

theorem contains_iff_square : ¬OnBoundary square ⟨2, 1⟩ ∧
    (contains square ⟨2, 1⟩ = some (decide (Odd (crossings square ⟨2, 1⟩))) ↔ ¬LastOnRay square ⟨2, 1⟩) :=
  have off : ¬OnBoundary square ⟨2, 1⟩ := by norm_num [OnBoundary, OnSegment, closedEdges, square]
  ⟨off, contains_iff square ⟨2, 1⟩ off⟩

/-- A triangle gives no answer for a point straight under its last corner. -/
theorem not_contains : ¬∀ (polygon : List Point) (point : Point), ¬OnBoundary polygon point →
    contains polygon point = some (decide (Odd (crossings polygon point))) := by
  intro all
  have off : ¬OnBoundary [⟨0, 0⟩, ⟨4, 0⟩, ⟨2, 4⟩] ⟨2, 1⟩ := by norm_num [OnBoundary, OnSegment, closedEdges]
  have inside := all [⟨0, 0⟩, ⟨4, 0⟩, ⟨2, 4⟩] ⟨2, 1⟩ off
  have onRay : LastOnRay [⟨0, 0⟩, ⟨4, 0⟩, ⟨2, 4⟩] ⟨2, 1⟩ := by norm_num [LastOnRay]
  rw [contains_of_lastOnRay onRay off] at inside
  cases inside

end WkcBrowser.Graphics.PathPolygon
