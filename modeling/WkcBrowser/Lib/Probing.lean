import Mathlib.Data.List.Perm.Basic
import Mathlib.Data.Fintype.EquivFin
import Mathlib.Data.Nat.ModEq
import Mathlib.Data.Nat.Prime.Basic

/-! Open addressing: an odd stride comes to every place of a table whose size is a power of two. And lists
of which one element is replaced. -/

namespace WkcBrowser.Lib

theorem probe_injective {m i k : Nat} (odd : k % 2 = 1) :
    Function.Injective fun j : Fin (2 ^ m) => (⟨(i + j.val * k) % 2 ^ m, Nat.mod_lt _ (Nat.two_pow_pos m)⟩ :
      Fin (2 ^ m)) := by
  intro j j' same
  have coprime : Nat.gcd (2 ^ m) k = 1 :=
    Nat.Coprime.pow_left m ((Nat.coprime_two_left).mpr (Nat.odd_iff.mpr odd))
  have congruent : i + j.val * k ≡ i + j'.val * k [MOD 2 ^ m] := congrArg Fin.val same
  have congruent := Nat.ModEq.cancel_right_of_coprime coprime (Nat.ModEq.add_left_cancel' i congruent)
  apply Fin.ext
  exact Nat.ModEq.eq_of_lt_of_lt congruent j.isLt j'.isLt

/-- Every place is come to. -/
theorem exists_probe {m k : Nat} (odd : k % 2 = 1) (i : Nat) {place : Nat} (inside : place < 2 ^ m) :
    ∃ j < 2 ^ m, (i + j * k) % 2 ^ m = place := by
  obtain ⟨j, reached⟩ := Finite.surjective_of_injective (probe_injective (m := m) (i := i) odd) ⟨place, inside⟩
  exact ⟨j.val, j.isLt, congrArg Fin.val reached⟩

section
variable {α β : Type} {l : List α} {i : Nat} {a b : α} {f : α → Option β} {x : β}

theorem set_split (here : l[i]? = some a) (b : α) :
    ∃ before behind, l = before ++ a :: behind ∧ l.set i b = before ++ b :: behind := by
  obtain ⟨inside, rfl⟩ := List.getElem?_eq_some_iff.mp here
  refine ⟨l.take i, l.drop (i + 1), ?_, ?_⟩
  · rw [List.getElem_cons_drop, List.take_append_drop]
  · rw [List.set_eq_take_append_cons_drop, if_pos inside]

theorem countP_set (here : l[i]? = some a) (b : α) (p : α → Bool) :
    (l.set i b).countP p + (p a).toNat = l.countP p + (p b).toNat := by
  obtain ⟨before, behind, split, replaced⟩ := set_split here b
  have turned (c : α) : (before ++ c :: behind).countP p =
      before.countP p + behind.countP p + (p c).toNat := by
    rw [List.countP_append, List.countP_cons]
    cases p c <;> simp [Nat.add_assoc]
  rw [replaced, split, turned, turned]
  omega

/-- Something is put where nothing was. -/
theorem filterMap_set_some (here : l[i]? = some a) (absent : f a = none) (filled : f b = some x) :
    ((l.set i b).filterMap f).Perm (x :: l.filterMap f) := by
  obtain ⟨before, behind, split, replaced⟩ := set_split here b
  rw [replaced, split, List.filterMap_append, List.filterMap_append, List.filterMap_cons_some filled,
    List.filterMap_cons_none absent]
  exact List.perm_middle

/-- What was there is taken away. -/
theorem filterMap_set_none (here : l[i]? = some a) (filled : f a = some x) (absent : f b = none) :
    (l.filterMap f).Perm (x :: (l.set i b).filterMap f) := by
  obtain ⟨before, behind, split, replaced⟩ := set_split here b
  rw [replaced, split, List.filterMap_append, List.filterMap_append, List.filterMap_cons_some filled,
    List.filterMap_cons_none absent]
  exact List.perm_middle

/-- What is named once stands in one place. -/
theorem filterMap_unique {γ : Type} {g : β → γ} (unique : ((l.filterMap f).map g).Nodup) {i' : Nat} {a' : α}
    {x' : β} (here : l[i]? = some a) (here' : l[i']? = some a') (filled : f a = some x) (filled' : f a' = some x')
    (same : g x = g x') : i = i' := by
  unfold List.Nodup at unique
  rw [List.pairwise_map, List.pairwise_filterMap, List.pairwise_iff_getElem] at unique
  obtain ⟨inside, rfl⟩ := List.getElem?_eq_some_iff.mp here
  obtain ⟨inside', rfl⟩ := List.getElem?_eq_some_iff.mp here'
  rcases Nat.lt_trichotomy i i' with less | equal | greater
  · exact absurd same (unique i i' inside inside' less x filled x' filled')
  · exact equal
  · exact absurd same.symm (unique i' i inside' inside greater x' filled' x filled)

end

end WkcBrowser.Lib
