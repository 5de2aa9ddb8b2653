import Mathlib.Data.List.Basic
import Mathlib.Data.List.Infix

/-! Lists that are cut at a separator into their nonempty pieces, and put together again. -/

namespace Splitting

variable {α : Type} [DecidableEq α]

/-- The nonempty pieces of a list between the separators. -/
def split (c : α) (text : List α) : List (List α) := (text.splitOn c).filter (· ≠ [])

section
variable {c : α} {text before after piece : List α} {pieces : List (List α)}

omit [DecidableEq α] in
theorem intercalate_append {pieces' : List (List α)} (first : pieces ≠ []) (second : pieces' ≠ []) :
    [c].intercalate (pieces ++ pieces') =
      [c].intercalate pieces ++ c :: [c].intercalate pieces' := by
  induction pieces with
  | nil => exact absurd rfl first
  | cons piece pieces ih =>
    have both : pieces ++ pieces' ≠ [] := List.append_ne_nil_of_right_ne_nil _ second
    rw [List.cons_append, List.intercalate_cons_of_ne_nil both]
    cases pieces with
    | nil => rw [List.nil_append, List.intercalate_singleton, List.append_assoc, List.singleton_append]
    | cons piece' pieces =>
      rw [ih (List.cons_ne_nil _ _), List.intercalate_cons_cons]
      simp only [List.append_assoc, List.cons_append]

omit [DecidableEq α] in
theorem mem_intercalate {x : α} (mem : piece ∈ pieces) (inside : x ∈ piece) :
    x ∈ [c].intercalate pieces := by
  induction pieces with
  | nil => exact absurd mem List.not_mem_nil
  | cons first pieces ih =>
    cases pieces with
    | nil =>
      rw [List.mem_singleton] at mem
      rwa [List.intercalate_singleton, ← mem]
    | cons second pieces =>
      rw [List.intercalate_cons_cons, List.mem_append, List.mem_append]
      cases List.mem_cons.mp mem with
      | inl same => exact Or.inl (Or.inl (same ▸ inside))
      | inr later => exact Or.inr (ih later)

omit [DecidableEq α] in
theorem mem_of_mem_intercalate {x : α} (mem : x ∈ [c].intercalate pieces) :
    x = c ∨ ∃ piece ∈ pieces, x ∈ piece := by
  induction pieces with
  | nil => exact absurd mem List.not_mem_nil
  | cons first pieces ih =>
    cases pieces with
    | nil =>
      rw [List.intercalate_singleton] at mem
      exact Or.inr ⟨first, List.mem_singleton_self first, mem⟩
    | cons second pieces =>
      rw [List.intercalate_cons_cons, List.mem_append, List.mem_append, List.mem_singleton] at mem
      rcases mem with (inside | same) | later
      · exact Or.inr ⟨first, List.mem_cons_self, inside⟩
      · exact Or.inl same
      · exact (ih later).imp_right fun ⟨piece, mem, inside⟩ => ⟨piece, List.mem_cons_of_mem _ mem, inside⟩

end

end Splitting
