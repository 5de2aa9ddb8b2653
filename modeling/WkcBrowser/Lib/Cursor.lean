import Mathlib.Data.List.TakeWhile

/-! A place between the elements of a sequence, that moves over them in both directions and stays
where it is when elements are taken out. -/

namespace WkcBrowser.Lib

/-- What is before the place, the nearest first, and what is after it. -/
structure Cursor (α : Type) where
  behind : List α
  ahead : List α

namespace Cursor

variable {α : Type}

def whole (cursor : Cursor α) : List α := cursor.behind.reverse ++ cursor.ahead

def flip (cursor : Cursor α) : Cursor α := ⟨cursor.ahead, cursor.behind⟩

/-- The first accepted element after the place, which goes behind it; without one it stays. -/
def next (accepts : α → Bool) (cursor : Cursor α) : Option α × Cursor α :=
  match cursor.ahead.dropWhile (!accepts ·) with
  | [] => (none, cursor)
  | a :: ahead =>
    (some a, ⟨a :: (cursor.ahead.takeWhile (!accepts ·)).reverse ++ cursor.behind, ahead⟩)

/-- The last accepted element before the place, which goes after it. -/
def previous (accepts : α → Bool) (cursor : Cursor α) : Option α × Cursor α :=
  ((cursor.flip.next accepts).1, (cursor.flip.next accepts).2.flip)

/-- Elements are taken out. -/
def remove (gone : α → Bool) (cursor : Cursor α) : Cursor α :=
  ⟨cursor.behind.filter (!gone ·), cursor.ahead.filter (!gone ·)⟩

variable {accepts : α → Bool} {cursor : Cursor α}

@[simp] theorem whole_flip : cursor.flip.whole = cursor.whole.reverse := by
  simp [whole, flip]

theorem whole_remove (gone : α → Bool) :
    (cursor.remove gone).whole = cursor.whole.filter (!gone ·) := by
  rw [whole, whole, List.filter_append, List.filter_reverse, remove]

/-- Without an accepted element the place stays. -/
theorem next_of_none (none : (cursor.next accepts).1 = .none) : (cursor.next accepts).2 = cursor := by
  unfold next at none ⊢
  cases found : cursor.ahead.dropWhile (!accepts ·) with
  | nil => rfl
  | cons a ahead =>
    rw [found] at none
    cases none

variable {behind ahead : List α} {a : α}

theorem next_nil : (⟨behind, []⟩ : Cursor α).next accepts = (none, ⟨behind, []⟩) := rfl

theorem next_accepted (accepted : accepts a = true) :
    (⟨behind, a :: ahead⟩ : Cursor α).next accepts = (some a, ⟨a :: behind, ahead⟩) := by
  have stop : ¬(!accepts a) = true := by simp [accepted]
  have dropped : (a :: ahead).dropWhile (!accepts ·) = a :: ahead :=
    List.dropWhile_cons_of_neg stop
  have taken : (a :: ahead).takeWhile (!accepts ·) = [] := List.takeWhile_cons_of_neg stop
  rw [next, dropped, taken]
  rfl

/-- An element that is not accepted is passed over if there is an accepted one later. -/
theorem next_refused (refused : accepts a = false) :
    (⟨behind, a :: ahead⟩ : Cursor α).next accepts =
      match (⟨a :: behind, ahead⟩ : Cursor α).next accepts with
      | (none, _) => (none, ⟨behind, a :: ahead⟩)
      | found => found := by
  have go : (!accepts a) = true := by simp [refused]
  have dropped : (a :: ahead).dropWhile (!accepts ·) = ahead.dropWhile (!accepts ·) :=
    List.dropWhile_cons_of_pos go
  have taken : (a :: ahead).takeWhile (!accepts ·) = a :: ahead.takeWhile (!accepts ·) :=
    List.takeWhile_cons_of_pos go
  unfold next
  dsimp only
  rw [dropped, taken]
  cases ahead.dropWhile (!accepts ·) with
  | nil => rfl
  | cons b rest => simp

/-- Moving does not change the sequence. -/
theorem whole_next : (cursor.next accepts).2.whole = cursor.whole := by
  have parts := List.takeWhile_append_dropWhile (p := (!accepts ·)) (l := cursor.ahead)
  unfold next
  cases found : cursor.ahead.dropWhile (!accepts ·) with
  | nil => rfl
  | cons a ahead =>
    rw [found] at parts
    calc (a :: (cursor.ahead.takeWhile (!accepts ·)).reverse ++ cursor.behind).reverse ++ ahead
      _ = cursor.behind.reverse ++ (cursor.ahead.takeWhile (!accepts ·) ++ a :: ahead) := by simp
      _ = cursor.behind.reverse ++ cursor.ahead := by rw [parts]

theorem whole_previous : (cursor.previous accepts).2.whole = cursor.whole := by
  rw [previous, whole_flip, whole_next, whole_flip, List.reverse_reverse]

end Cursor

end WkcBrowser.Lib
