import Mathlib.Data.List.Basic

/-! Lists whose elements lead from each to the next one, and searches along them. -/

namespace WkcBrowser.Lib

section
variable {α : Type} {next other : α → Option α} {items front rest : List α}

/-- Each element leads to the next one. -/
def Follows (next : α → Option α) : List α → Prop
  | [] => True
  | n :: rest => next n = rest.head? ∧ Follows next rest

theorem Follows.append (follows : Follows next (front ++ rest)) : Follows next rest := by
  induction front with
  | nil => exact follows
  | cons n front ih => exact ih follows.2

theorem Follows.congr (follows : Follows next items) (same : ∀ n ∈ items, other n = next n) :
    Follows other items := by
  induction items with
  | nil => trivial
  | cons n rest ih =>
    exact ⟨(same n List.mem_cons_self).trans follows.1,
      ih follows.2 fun m member => same m (List.mem_cons_of_mem n member)⟩

theorem follows_of_split (split : ∀ front n rest, items = front ++ n :: rest → next n = rest.head?) :
    Follows next items := by
  have walk : ∀ rest front, items = front ++ rest → Follows next rest := by
    intro rest
    induction rest with
    | nil => exact fun _ _ => trivial
    | cons n rest ih =>
      intro front whole
      exact ⟨split front n rest whole, ih (front ++ [n]) (by simp [whole])⟩
  exact walk items [] rfl

theorem follows_reverse_of_split
    (split : ∀ front n rest, items = front ++ n :: rest → next n = front.getLast?) :
    Follows next items.reverse := by
  apply follows_of_split
  intro front n rest whole
  have turned : items = rest.reverse ++ n :: front.reverse := by
    rw [← List.reverse_reverse items, whole]
    simp
  rw [split _ n _ turned, List.getLast?_reverse]

/-- A loop that takes the first element that is included, in some steps. -/
def search (next : α → Option α) (included : α → Bool) : Nat → Option α → Option α
  | 0, _ => none
  | _, none => none
  | steps + 1, some n => if included n then some n else search next included steps (next n)

variable {included : α → Bool} {steps : Nat}

theorem search_eq (follows : Follows next items) (enough : items.length ≤ steps) :
    search next included steps items.head? = (items.filter included).head? := by
  induction items generalizing steps with
  | nil => cases steps <;> rfl
  | cons n rest ih =>
    rw [List.length_cons] at enough
    obtain ⟨steps, rfl⟩ : ∃ more, steps = more + 1 := ⟨steps - 1, by omega⟩
    rw [List.head?_cons, search, follows.1]
    by_cases found : included n = true
    · rw [if_pos found, List.filter_cons_of_pos found, List.head?_cons]
    · rw [if_neg found, List.filter_cons_of_neg found]
      exact ih follows.2 (by omega)

/-- What a search goes on to from the elements it finds. -/
theorem follows_search (follows : Follows next items) (enough : items.length ≤ steps) :
    Follows (fun n => search next included steps (next n)) (items.filter included) := by
  induction items with
  | nil => trivial
  | cons n rest ih =>
    rw [List.length_cons] at enough
    have later := ih follows.2 (by omega)
    by_cases found : included n = true
    · rw [List.filter_cons_of_pos found]
      refine ⟨?_, later⟩
      dsimp only
      rw [follows.1]
      exact search_eq follows.2 (by omega)
    · rw [List.filter_cons_of_neg found]
      exact later

end

end WkcBrowser.Lib
