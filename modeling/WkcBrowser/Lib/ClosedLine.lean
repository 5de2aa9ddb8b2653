import Mathlib.Algebra.Ring.Parity
import Mathlib.Data.List.Basic

/-! Closed lines through the elements of a list. Going around one changes sides an even number of
times. -/

namespace WkcBrowser.Lib

variable {α : Type}

/-- The steps of a line that goes on from `a`. -/
def edgesFrom (a : α) : List α → List (α × α)
  | [] => []
  | b :: rest => (a, b) :: edgesFrom b rest

/-- The steps of a line that ends where it begins. -/
def closedEdges : List α → List (α × α)
  | [] => []
  | a :: rest => edgesFrom ((a :: rest).getLast (List.cons_ne_nil a rest)) (a :: rest)

@[simp] theorem edgesFrom_nil (a : α) : edgesFrom a [] = [] := rfl

@[simp] theorem edgesFrom_cons (a b : α) (rest : List α) :
    edgesFrom a (b :: rest) = (a, b) :: edgesFrom b rest := rfl

theorem closedEdges_of_getLast {line : List α} (filled : line ≠ []) :
    closedEdges line = edgesFrom (line.getLast filled) line := by
  cases line with
  | nil => exact absurd rfl filled
  | cons a rest => rfl

theorem mem_of_mem_edgesFrom {a : α} {line : List α} {edge : α × α} (member : edge ∈ edgesFrom a line) :
    (edge.1 = a ∨ edge.1 ∈ line) ∧ edge.2 ∈ line := by
  induction line generalizing a with
  | nil => exact absurd member List.not_mem_nil
  | cons b rest ih =>
    rw [edgesFrom_cons, List.mem_cons] at member
    rcases member with rfl | later
    · exact ⟨Or.inl rfl, List.mem_cons_self⟩
    · obtain ⟨first, second⟩ := ih later
      refine ⟨Or.inr ?_, List.mem_cons_of_mem b second⟩
      rcases first with rfl | inside
      · exact List.mem_cons_self
      · exact List.mem_cons_of_mem b inside

/-- A step of a closed line goes between elements of it. -/
theorem mem_of_mem_closedEdges {line : List α} {edge : α × α} (member : edge ∈ closedEdges line) :
    edge.1 ∈ line ∧ edge.2 ∈ line := by
  cases line with
  | nil => exact absurd member List.not_mem_nil
  | cons a rest =>
    obtain ⟨first, second⟩ := mem_of_mem_edgesFrom member
    refine ⟨?_, second⟩
    rcases first with same | inside
    · rw [same]
      exact List.getLast_mem (List.cons_ne_nil a rest)
    · exact inside

/-- A step that changes sides. -/
def Changes (side : α → Bool) (edge : α × α) : Bool := side edge.1 != side edge.2

end WkcBrowser.Lib
