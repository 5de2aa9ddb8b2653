import Mathlib.Data.List.Basic

/-! Readers of an input that grows. A reader takes one item at a time from the start of the input, or waits
for more. When more input does not change an item that was read, it does not matter where the input was
cut when it arrived. -/

namespace WkcBrowser.Lib.Incremental

section
variable {σ α β : Type}

/-- The first item of an input, the mode behind it, and how many symbols it takes. -/
abbrev Reader (σ α β : Type) := σ → List α → Option (β × σ × Nat)

structure Steady (next : Reader σ α β) : Prop where
  within : ∀ s input item s' taken, next s input = some (item, s', taken) → taken ≤ input.length
  stable : ∀ s input item s' taken, next s input = some (item, s', taken) →
    ∀ more, next s (input ++ more) = some (item, s', taken)

/-- All items of an input are read, until the reader waits with what is left. -/
inductive Reads (next : Reader σ α β) : σ → List α → List β → σ → List α → Prop
  | waits {s : σ} {input : List α} (nothing : next s input = none) : Reads next s input [] s input
  | item {s s' s'' : σ} {input rest : List α} {taken : Nat} {item : β} {items : List β}
      (first : next s input = some (item, s', taken))
      (others : Reads next s' (input.drop taken) items s'' rest) :
      Reads next s input (item :: items) s'' rest

variable {next : Reader σ α β} {s s' s'' : σ} {input rest rest' more : List α} {items items' : List β}

theorem Reads.unique (reads : Reads next s input items s' rest)
    (reads' : Reads next s input items' s'' rest') : items = items' ∧ s' = s'' ∧ rest = rest' := by
  induction reads generalizing items' s'' rest' with
  | waits nothing =>
    cases reads' with
    | waits => exact ⟨rfl, rfl, rfl⟩
    | item first =>
      rw [nothing] at first
      cases first
  | item first _ ih =>
    cases reads' with
    | waits nothing =>
      rw [nothing] at first
      cases first
    | item first' others' =>
      rw [first] at first'
      cases first'
      obtain ⟨same, modes, rests⟩ := ih others'
      exact ⟨by rw [same], modes, rests⟩

theorem Reads.suffix (reads : Reads next s input items s' rest) : rest <:+ input := by
  induction reads with
  | waits => exact List.suffix_refl _
  | item _ _ ih => exact ih.trans (List.drop_suffix _ _)

/-- What is left is read together with what arrives next. -/
theorem Reads.append (steady : Steady next) (reads : Reads next s input items s' rest)
    (later : Reads next s' (rest ++ more) items' s'' rest') :
    Reads next s (input ++ more) (items ++ items') s'' rest' := by
  induction reads with
  | waits => exact later
  | item first _ ih =>
    have short := steady.within _ _ _ _ _ first
    refine .item (steady.stable _ _ _ _ _ first more) ?_
    rw [List.drop_append_of_le_length short]
    exact ih later

end

end WkcBrowser.Lib.Incremental
