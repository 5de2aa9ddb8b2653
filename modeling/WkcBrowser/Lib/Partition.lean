import Mathlib.Data.List.Perm.Basic

/-! Parts of a list that are put in another order by exchanges of two elements. -/

namespace WkcBrowser.Lib

section
variable {α : Type}

/-- The list with two elements exchanged, when it has both. -/
def swapAt (items : List α) (i j : Nat) : Option (List α) := do
  let a ← items[i]?
  let b ← items[j]?
  some ((items.set i b).set j a)

/-- Over some places from `i` on, what is chosen is exchanged with what is at the end of the group. -/
def gather (chosen : α → Option Bool) : Nat → Nat → Nat → List α → Option (Nat × List α)
  | 0, _, groupEnd, items => some (groupEnd, items)
  | places + 1, i, groupEnd, items => do
    let a ← items[i]?
    if ← chosen a then
      let items ← swapAt items i groupEnd
      gather chosen places (i + 1) (groupEnd + 1) items
    else gather chosen places (i + 1) groupEnd items

theorem getElem?_place (front : List α) (a : α) (rest : List α) :
    (front ++ a :: rest)[front.length]? = some a := by
  rw [List.getElem?_append_right (Nat.le_refl _), Nat.sub_self]
  rfl

theorem set_place (front : List α) (a b : α) (rest : List α) :
    (front ++ a :: rest).set front.length b = front ++ b :: rest := by
  rw [List.set_append_right _ _ (Nat.le_refl _), Nat.sub_self, List.set_cons_zero]

theorem swapAt_self (front : List α) (a : α) (rest : List α) :
    swapAt (front ++ a :: rest) front.length front.length = some (front ++ a :: rest) := by
  rw [swapAt, getElem?_place]
  simp only [Option.bind_eq_bind, Option.bind_some, set_place]

/-- Two elements that are apart change places. -/
theorem swapAt_apart (front : List α) (a : α) (between : List α) (b : α) (rest : List α) :
    swapAt (front ++ a :: (between ++ b :: rest)) (front.length + (between.length + 1)) front.length =
      some (front ++ b :: (between ++ a :: rest)) := by
  have far : ∀ c, front ++ c :: (between ++ b :: rest) = (front ++ c :: between) ++ b :: rest := by
    simp
  have place : ∀ c, (front ++ c :: between).length = front.length + (between.length + 1) := by
    simp
  have later : (front ++ a :: (between ++ b :: rest))[front.length + (between.length + 1)]? = some b := by
    rw [far, ← place a, getElem?_place]
  have stored : (front ++ a :: (between ++ b :: rest)).set (front.length + (between.length + 1)) a =
      front ++ a :: (between ++ a :: rest) := by
    rw [far, ← place a, set_place]
    simp
  rw [swapAt, later, getElem?_place]
  simp only [Option.bind_eq_bind, Option.bind_some, stored, set_place]

/-- What was chosen comes first, in its order, and then the others in some order. -/
theorem gather_eq {β : Type} {chosen : α → Option Bool} {p : β → Bool} (f : β → α)
    (front : List α) (others rest : List β) (after : List α)
    (decides : ∀ b ∈ rest, chosen (f b) = some (p b)) :
    ∃ others' : List β, others'.Perm (others ++ rest.filter fun b => !p b) ∧
      gather chosen rest.length (front.length + others.length) front.length
          (front ++ others.map f ++ rest.map f ++ after) =
        some (front.length + (rest.filter p).length,
          front ++ (rest.filter p).map f ++ others'.map f ++ after) := by
  induction rest generalizing front others with
  | nil => exact ⟨others, by simp, by simp [gather]⟩
  | cons b rest ih =>
    have decide := decides b List.mem_cons_self
    have later : ∀ c ∈ rest, chosen (f c) = some (p c) :=
      fun c member => decides c (List.mem_cons_of_mem _ member)
    have place : (front ++ others.map f ++ (b :: rest).map f ++ after)[
        front.length + others.length]? = some (f b) := by
      have found := getElem?_place (front ++ others.map f) (f b) (rest.map f ++ after)
      rw [List.length_append, List.length_map] at found
      rw [List.map_cons, List.append_assoc (front ++ others.map f)]
      exact found
    rw [List.length_cons, gather, place]
    simp only [Option.bind_eq_bind, Option.bind_some, decide]
    by_cases wanted : p b = true
    · rw [if_pos wanted, List.filter_cons_of_pos wanted, List.filter_cons_of_neg (by simp [wanted])]
      cases others with
      | nil =>
        have kept : swapAt (front ++ ([] : List β).map f ++ (b :: rest).map f ++ after)
            (front.length + ([] : List β).length) front.length =
              some ((front ++ [f b]) ++ ([] : List β).map f ++ rest.map f ++ after) := by
          simpa using swapAt_self front (f b) (rest.map f ++ after)
        obtain ⟨others', perm, gathered⟩ := ih (front ++ [f b]) [] later
        refine ⟨others', perm, ?_⟩
        rw [kept, Option.bind_some]
        simp only [List.length_append, List.length_cons, List.length_nil] at gathered ⊢
        rw [gathered]
        simp [Nat.add_comm, Nat.add_left_comm]
      | cons c others =>
        have swapped : swapAt (front ++ (c :: others).map f ++ (b :: rest).map f ++ after)
            (front.length + (c :: others).length) front.length =
              some ((front ++ [f b]) ++ (others ++ [c]).map f ++ rest.map f ++ after) := by
          simpa using swapAt_apart front (f c) (others.map f) (f b) (rest.map f ++ after)
        obtain ⟨others', perm, gathered⟩ := ih (front ++ [f b]) (others ++ [c]) later
        refine ⟨others', perm.trans ?_, ?_⟩
        · rw [List.append_assoc]
          exact List.perm_middle
        · rw [swapped, Option.bind_some]
          have places : front.length + (c :: others).length + 1 =
              (front ++ [f b]).length + (others ++ [c]).length := by
            simp only [List.length_append, List.length_cons, List.length_nil]
            omega
          have groupEnd : front.length + 1 = (front ++ [f b]).length := by simp
          rw [places, groupEnd, gathered]
          simp [Nat.add_comm, Nat.add_left_comm]
    · rw [if_neg wanted, List.filter_cons_of_neg wanted, List.filter_cons_of_pos (by simp [wanted])]
      obtain ⟨others', perm, gathered⟩ := ih front (others ++ [b]) later
      refine ⟨others', by simpa using perm, ?_⟩
      rw [← gathered]
      simp [Nat.add_assoc]

/-- The element at a place and the one at the front change places. -/
theorem swapAt_front {β : Type} (f : β → α) (front : List α) (before : List β) (b : β)
    (rest : List β) (after : List α) :
    ∃ others : List β, others.Perm (before ++ rest) ∧
      swapAt (front ++ (before ++ b :: rest).map f ++ after) (front.length + before.length)
          front.length =
        some (front ++ (b :: others).map f ++ after) := by
  cases before with
  | nil =>
    refine ⟨rest, .refl _, ?_⟩
    simpa using swapAt_self front (f b) (rest.map f ++ after)
  | cons c before =>
    refine ⟨before ++ c :: rest, List.perm_middle, ?_⟩
    simpa using swapAt_apart front (f c) (before.map f) (f b) (rest.map f ++ after)

end

end WkcBrowser.Lib
