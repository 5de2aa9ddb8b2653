import Mathlib.Algebra.BigOperators.Group.Finset.Basic
import Mathlib.Algebra.Order.BigOperators.Group.Finset
import Mathlib.Data.List.Basic

/-! Sources that are read piece by piece until they have no more. -/

namespace WkcBrowser.Lib.Delivery

section
variable {σ α β : Type} (read : β → σ → List α × σ)

/-- What the first reads return, and the state behind them. -/
def reads (sizes : Nat → β) : Nat → σ → List α × σ
  | 0, s => ([], s)
  | n + 1, s =>
    let first := read (sizes 0) s
    let rest := reads (fun i => sizes (i + 1)) n first.2
    (first.1 ++ rest.1, rest.2)

/-- As long as there is more it is read, and then the reads have returned all. -/
def Delivers (more : σ → Bool) (sizes : Nat → β) (s : σ) (whole : List α) : Prop :=
  ∃ n, (∀ m < n, more (reads read sizes m s).2 = true) ∧ more (reads read sizes n s).2 = false ∧
    (reads read sizes n s).1 = whole

/-- What is left to be read gets less with every read. -/
structure Source (more : σ → Bool) (holds : σ → Prop) (left : σ → List α) (work : σ → Nat) (size : β) :
    Prop where
  kept : ∀ s, holds s → more s = true → holds (read size s).2
  split : ∀ s, holds s → more s = true → left s = (read size s).1 ++ left (read size s).2
  falls : ∀ s, holds s → more s = true → work (read size s).2 < work s

variable {read} {more : σ → Bool} {holds : σ → Prop} {left : σ → List α} {work : σ → Nat}

theorem Source.delivers {sizes : Nat → β} (source : ∀ i, Source read more holds left work (sizes i))
    (ended : ∀ s, more s = false → left s = []) {s : σ} (start : holds s) :
    Delivers read more sizes s (left s) := by
  generalize bound : work s = n
  induction n using Nat.strongRecOn generalizing s sizes with
  | ind n ih =>
    by_cases last : more s = true
    · have here := source 0
      have smaller := here.falls s start last
      rw [bound] at smaller
      obtain ⟨n, before, stop, whole⟩ := ih _ smaller (fun i => source (i + 1)) (here.kept s start last) rfl
      refine ⟨n + 1, fun m less => ?_, stop, ?_⟩
      · cases m with
        | zero => exact last
        | succ m => exact before m (Nat.lt_of_succ_lt_succ less)
      · rw [here.split s start last, ← whole]
        rfl
    · rw [Bool.not_eq_true] at last
      exact ⟨0, fun m less => absurd less (Nat.not_lt_zero m), last, (ended s last).symm⟩

end

end WkcBrowser.Lib.Delivery

/-! Draining a source through buffers. A producer holds a text it still has to deliver and is
called again and again with the length of the buffer it may fill. A call is clean when it delivers
the next stretch of that text and keeps the rest. This module says what a whole run delivers when
its calls are clean, and bounds what it delivers when some are not. -/

namespace WkcBrowser.Lib.Drain

section
variable {σ β : Type} (step : Nat → σ → List β × σ) (left : σ → List β)

/-- The state after the first `k` calls. -/
def after (lens : Nat → Nat) (start : σ) : Nat → σ
  | 0 => start
  | k + 1 => (step (lens k) (after lens start k)).2

/-- What the first `k` calls delivered together. -/
def sent (lens : Nat → Nat) (start : σ) : Nat → List β
  | 0 => []
  | k + 1 => sent lens start k ++ (step (lens k) (after step lens start k)).1

/-- The room the first `k` buffers offered. -/
def offered (lens : Nat → Nat) (k : Nat) : Nat := ∑ j ∈ Finset.range k, lens j

def Clean (length : Nat) (s : σ) : Prop :=
  (step length s).1 = (left s).take length ∧
    left (step length s).2 = (left s).drop length

theorem offered_succ (lens : Nat → Nat) (k : Nat) :
    offered lens (k + 1) = offered lens k + lens k :=
  Finset.sum_range_succ ..

theorem offered_mono (lens : Nat → Nat) {j k : Nat} (ordered : j ≤ k) :
    offered lens j ≤ offered lens k :=
  Finset.sum_le_sum_of_subset (Finset.range_subset_range.mpr ordered)

theorem le_offered (lens : Nat → Nat) (positive : ∀ k, 0 < lens k) (k : Nat) :
    k ≤ offered lens k := by
  induction k with
  | zero => exact Nat.zero_le _
  | succ k ih =>
    have more := positive k
    rw [offered_succ]
    omega

/-- While every call is clean the run delivers a prefix of the text and holds the rest of it. -/
theorem sent_of_clean (lens : Nat → Nat) (start : σ) (k : Nat)
    (clean : ∀ j < k, Clean step left (lens j) (after step lens start j)) :
    sent step lens start k = (left start).take (offered lens k) ∧
      left (after step lens start k) = (left start).drop (offered lens k) := by
  induction k with
  | zero => simp [sent, after, offered]
  | succ k ih =>
    obtain ⟨sentBefore, leftBefore⟩ := ih (fun j below => clean j (by omega))
    obtain ⟨sentNow, leftNow⟩ := clean k (by omega)
    constructor
    · rw [sent, sentBefore, sentNow, leftBefore, offered_succ, List.take_add]
    · rw [after, leftNow, leftBefore, offered_succ, List.drop_drop]

/-- A run of clean calls through buffers of positive length delivers the whole text. -/
theorem drained_of_clean (lens : Nat → Nat) (start : σ) (positive : ∀ k, 0 < lens k)
    (clean : ∀ j, Clean step left (lens j) (after step lens start j)) :
    sent step lens start (left start).length = left start ∧
      left (after step lens start (left start).length) = [] := by
  have delivered := sent_of_clean step left lens start (left start).length (fun j _ => clean j)
  have room := le_offered lens positive (left start).length
  rw [List.take_of_length_le room, List.drop_of_length_le room] at delivered
  exact delivered

/-- If no call loses text then what was delivered and what is left never add up to less than the
text the run began with. -/
theorem length_le_of_keeps (lens : Nat → Nat) (start : σ) (k : Nat)
    (keeps : ∀ j < k, (left (after step lens start j)).length ≤
      (step (lens j) (after step lens start j)).1.length +
        (left (step (lens j) (after step lens start j)).2).length) :
    (left start).length ≤ (sent step lens start k).length +
      (left (after step lens start k)).length := by
  induction k with
  | zero => simp [sent, after]
  | succ k ih =>
    have before := ih (fun j below => keeps j (by omega))
    have now := keeps k (by omega)
    simp only [sent, after, List.length_append]
    omega

/-- If moreover one call gives text back, the run delivers too much by the time it has nothing
left. -/
theorem length_lt_of_regains (lens : Nat → Nat) (start : σ) (j k : Nat) (within : j < k)
    (keeps : ∀ j < k, (left (after step lens start j)).length ≤
      (step (lens j) (after step lens start j)).1.length +
        (left (step (lens j) (after step lens start j)).2).length)
    (regains : (left (after step lens start j)).length <
      (step (lens j) (after step lens start j)).1.length +
        (left (step (lens j) (after step lens start j)).2).length) :
    (left start).length < (sent step lens start k).length +
      (left (after step lens start k)).length := by
  induction k with
  | zero => omega
  | succ k ih =>
    have now := keeps k (by omega)
    have before := length_le_of_keeps step left lens start k (fun i below => keeps i (by omega))
    simp only [sent, after, List.length_append]
    rcases Nat.lt_succ_iff_lt_or_eq.mp within with earlier | last
    · have strict := ih earlier (fun i below => keeps i (by omega))
      omega
    · subst last
      omega

end

end WkcBrowser.Lib.Drain
