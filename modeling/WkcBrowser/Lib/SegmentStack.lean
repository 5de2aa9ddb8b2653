import Mathlib.Data.List.Basic

/-! Two ways to pop a stack: one takes the top off, the other takes light elements off before it. -/

namespace WkcBrowser.Lib.SegmentStack

variable {α : Type} (light : α → Bool)

/-- Light elements are taken off, and one more. -/
def popThrough (stack : List α) : List α := (stack.dropWhile light).tail

/-- An element is pushed, or the stack is popped. -/
def step (pop : List α → List α) (stack : List α) : Option α → List α
  | some a => a :: stack
  | none => pop stack

def run (pop : List α → List α) (stack : List α) (ops : List (Option α)) : List α :=
  ops.foldl (step pop) stack

theorem popThrough_subset (stack : List α) : popThrough light stack ⊆ stack := fun _ member =>
  (List.dropWhile_sublist _).subset (List.mem_of_mem_tail member)

/-- Whether both ways come to the same stack. They part where a light element is popped that is not the
last one, and meet again where the first way leaves nothing. -/
def agree : Bool → List α → List (Option α) → Bool
  | same, _, [] => same
  | same, stack, some a :: ops => agree same (a :: stack) ops
  | same, stack, none :: ops =>
    agree (stack.length ≤ 1 || same && !stack.head?.any light) stack.tail ops

theorem popThrough_length (stack : List α) : (popThrough light stack).length ≤ stack.length - 1 := by
  rw [popThrough, List.length_tail]
  exact Nat.sub_le_sub_right (List.dropWhile_sublist _).length_le 1

theorem popThrough_heavy {a : α} (heavy : light a = false) (stack : List α) :
    popThrough light (a :: stack) = stack := by
  rw [popThrough, List.dropWhile_cons_of_neg (by rw [heavy]; exact Bool.false_ne_true), List.tail_cons]

theorem popThrough_light {a : α} (isLight : light a = true) (stack : List α) :
    popThrough light (a :: stack) = popThrough light stack := by
  rw [popThrough, List.dropWhile_cons_of_pos isLight]
  rfl

/-- While they agree the stacks are the same, and else the second is shorter. -/
structure Parted (same : Bool) (first second : List α) : Prop where
  eq : same = true → first = second
  shorter : same = false → second.length < first.length

variable {light} {same : Bool} {first second : List α}

theorem Parted.push (parted : Parted same first second) (a : α) :
    Parted same (a :: first) (a :: second) :=
  ⟨fun agree => congrArg _ (parted.eq agree), fun differ => Nat.succ_lt_succ (parted.shorter differ)⟩

theorem Parted.pop (parted : Parted same first second) :
    Parted (first.length ≤ 1 || same && !first.head?.any light) first.tail
      (popThrough light second) := by
  have short := popThrough_length light second
  by_cases last : first.length ≤ 1
  · have none : first.tail = [] := List.eq_nil_of_length_eq_zero (by rw [List.length_tail]; omega)
    have noneLeft : popThrough light second = [] := by
      apply List.eq_nil_of_length_eq_zero
      cases same with
      | true =>
        rw [← parted.eq rfl] at short ⊢
        omega
      | false =>
        have shorter := parted.shorter rfl
        omega
    rw [none, noneLeft, decide_eq_true last, Bool.true_or]
    exact ⟨fun _ => rfl, nofun⟩
  · rw [decide_eq_false last, Bool.false_or]
    cases same with
    | false =>
      have shorter := parted.shorter rfl
      refine ⟨nofun, fun _ => ?_⟩
      rw [List.length_tail]
      omega
    | true =>
      rw [Bool.true_and, ← parted.eq rfl]
      cases first with
      | nil => exact absurd (Nat.zero_le 1) last
      | cons a stack =>
        rw [List.head?_cons, Option.any_some, List.tail_cons]
        by_cases isLight : light a = true
        · rw [isLight, popThrough_light light isLight]
          refine ⟨nofun, fun _ => ?_⟩
          have less := popThrough_length light stack
          rw [List.length_cons] at last
          omega
        · rw [Bool.not_eq_true] at isLight
          rw [isLight, popThrough_heavy light isLight]
          exact ⟨fun _ => rfl, nofun⟩

theorem Parted.run (parted : Parted same first second) (ops : List (Option α)) :
    Parted (agree light same first ops) (run List.tail first ops) (run (popThrough light) second ops) := by
  induction ops generalizing same first second with
  | nil => exact parted
  | cons op ops ih =>
    cases op with
    | some a => exact ih (parted.push a)
    | none => exact ih parted.pop

end WkcBrowser.Lib.SegmentStack
