import Mathlib.Data.List.Forall2
import Mathlib.Tactic.Ring

/-! Lists cut into chunks of one length, and pairs of lists that are related place by place. -/

namespace WkcBrowser.Lib.Chunks

section
variable {α : Type} {size : Nat} {chunks : List (List α)}

/-- Every chunk has the given length. -/
def Uniform (size : Nat) (chunks : List (List α)) : Prop := ∀ chunk ∈ chunks, chunk.length = size

theorem Uniform.tail {chunk : List α} (uniform : Uniform size (chunk :: chunks)) :
    Uniform size chunks := fun other inside => uniform other (List.mem_cons_of_mem _ inside)

theorem length_flatten (uniform : Uniform size chunks) :
    chunks.flatten.length = chunks.length * size := by
  induction chunks with
  | nil => simp
  | cons chunk chunks ih =>
    rw [List.flatten_cons, List.length_append, ih uniform.tail, uniform chunk List.mem_cons_self,
      List.length_cons, Nat.succ_mul, Nat.add_comm]

/-- A chunk from an offset on is a stretch of the whole list. -/
theorem getD_drop (uniform : Uniform size chunks) {index offset : Nat}
    (inside : index < chunks.length) (short : offset ≤ size) :
    (chunks.getD index []).drop offset =
      (chunks.flatten.drop (index * size + offset)).take (size - offset) := by
  induction chunks generalizing index with
  | nil => simp at inside
  | cons chunk chunks ih =>
    have length := uniform chunk List.mem_cons_self
    cases index with
    | zero =>
      rw [List.getD_cons_zero, List.flatten_cons, Nat.zero_mul, Nat.zero_add,
        List.drop_append_of_le_length (by omega), List.take_left' (by simp [length])]
    | succ index =>
      have inTail : index < chunks.length := by simpa using inside
      have skipped : (index + 1) * size + offset = chunk.length + (index * size + offset) := by
        rw [length]
        ring
      rw [List.getD_cons_succ, ih uniform.tail inTail, List.flatten_cons, skipped,
        List.drop_append, List.drop_eq_nil_of_le (Nat.le_add_right chunk.length _),
        List.nil_append, Nat.add_sub_cancel_left]

end

section
variable {α β : Type} {related shown : α → β → Prop}

/-- One place of two related lists is changed. -/
theorem forall₂_modify_iff {as : List α} {bs : List β} (pairs : List.Forall₂ related as bs)
    (shows : ∀ a b, related a b → shown a b) (index : Nat) (f : α → α) (g : β → β) :
    List.Forall₂ shown (as.modify index f) (bs.modify index g) ↔
      ∀ a b, as[index]? = some a → bs[index]? = some b → shown (f a) (g b) := by
  induction pairs generalizing index with
  | nil => simp
  | @cons a b as bs pair pairs ih =>
    cases index with
    | zero =>
      have rest : List.Forall₂ shown as bs := pairs.imp shows
      simp [rest]
    | succ index => simp [ih index, shows a b pair]

theorem forall₂_getElem? {as : List α} {bs : List β} (pairs : List.Forall₂ related as bs)
    {index : Nat} {a : α} {b : β} (left : as[index]? = some a) (right : bs[index]? = some b) :
    related a b := by
  induction pairs generalizing index with
  | nil => simp at left
  | cons pair pairs ih =>
    cases index with
    | zero =>
      obtain rfl : _ = a := by simpa using left
      obtain rfl : _ = b := by simpa using right
      exact pair
    | succ index => exact ih (by simpa using left) (by simpa using right)

end

end WkcBrowser.Lib.Chunks
