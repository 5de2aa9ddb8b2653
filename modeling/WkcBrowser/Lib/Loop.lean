import Mathlib.Order.Basic

/-! Loops that run until they are done. A turn of the loop either asks for another turn or ends with
a result. When a measure falls with every further turn, the loop ends, and what it computes does not
depend on how many turns it is allowed. -/

namespace WkcBrowser.Lib.Loop

inductive Turn (σ ρ : Type) where
  | again (s : σ)
  | done (result : ρ)

section
variable {σ ρ : Type} (turn : σ → Turn σ ρ)

/-- At most the given number of turns. -/
def iterate : Nat → σ → Option ρ
  | 0, _ => none
  | turns + 1, s =>
    match turn s with
    | .again s' => iterate turns s'
    | .done result => some result

def Shrinks (size : σ → Nat) : Prop :=
  ∀ s s', turn s = .again s' → size s' < size s

/-- The loop, with as many turns as its measure allows. -/
def run (size : σ → Nat) (s : σ) : Option ρ := iterate turn (size s + 1) s

variable {turn} {size : σ → Nat}

theorem iterate_of_size (shrinks : Shrinks turn size) (few many : Nat) (s : σ)
    (enough : size s < few) (more : few ≤ many) : iterate turn many s = iterate turn few s := by
  induction few generalizing many s with
  | zero => omega
  | succ few ih =>
    obtain ⟨many, rfl⟩ : ∃ k, many = k + 1 := ⟨many - 1, by omega⟩
    simp only [iterate]
    cases next : turn s with
    | again s' =>
      have smaller := shrinks s s' next
      exact ih many s' (by omega) (by omega)
    | done result => rfl

theorem run_again (shrinks : Shrinks turn size) {s s' : σ} (next : turn s = .again s') :
    run turn size s = run turn size s' := by
  have smaller := shrinks s s' next
  calc run turn size s = iterate turn (size s) s' := by simp only [run, iterate, next]
    _ = run turn size s' := iterate_of_size shrinks _ _ s' (by omega) (by omega)

theorem run_done {s : σ} {result : ρ} (next : turn s = .done result) :
    run turn size s = some result := by
  simp only [run, iterate, next]

theorem iterate_total (shrinks : Shrinks turn size) (turns : Nat) (s : σ)
    (enough : size s < turns) : ∃ result, iterate turn turns s = some result := by
  induction turns generalizing s with
  | zero => omega
  | succ turns ih =>
    simp only [iterate]
    cases next : turn s with
    | again s' =>
      have smaller := shrinks s s' next
      exact ih s' (by omega)
    | done result => exact ⟨result, rfl⟩

/-- The loop ends. -/
theorem run_total (shrinks : Shrinks turn size) (s : σ) : ∃ result, run turn size s = some result :=
  iterate_total shrinks _ s (Nat.lt_succ_self _)

theorem iterate_invariant (holds : σ → Prop) (post : ρ → Prop)
    (kept : ∀ s s', holds s → turn s = .again s' → holds s')
    (ends : ∀ s result, holds s → turn s = .done result → post result)
    (turns : Nat) (s : σ) (start : holds s) {result : ρ}
    (found : iterate turn turns s = some result) : post result := by
  induction turns generalizing s with
  | zero => simp [iterate] at found
  | succ turns ih =>
    simp only [iterate] at found
    cases next : turn s with
    | again s' =>
      rw [next] at found
      exact ih s' (kept s s' start next) found
    | done result' =>
      rw [next] at found
      obtain rfl := Option.some.inj found
      exact ends s _ start next

/-- What every turn keeps holds when the loop is done. -/
theorem run_invariant (holds : σ → Prop) (post : ρ → Prop)
    (kept : ∀ s s', holds s → turn s = .again s' → holds s')
    (ends : ∀ s result, holds s → turn s = .done result → post result)
    {s : σ} (start : holds s) {result : ρ} (found : run turn size s = some result) : post result :=
  iterate_invariant holds post kept ends _ s start found

/-- A loop whose turns are those of a loop that ends, seen through `view`, ends with it. -/
theorem iterate_simulates {τ ρ' : Type} {turn' : τ → Turn τ ρ'} (shrinks : Shrinks turn size)
    (view : τ → σ) (holds : τ → Prop) (ends : ρ' → ρ → Prop)
    (step : ∀ t, holds t →
      (∃ t', turn' t = .again t' ∧ turn (view t) = .again (view t') ∧ holds t') ∨
        ∃ result' result, turn' t = .done result' ∧ turn (view t) = .done result ∧ ends result' result)
    {t : τ} (start : holds t) :
    ∃ turns result' result, iterate turn' turns t = some result' ∧
      run turn size (view t) = some result ∧ ends result' result := by
  generalize bound : size (view t) = n
  induction n using Nat.strongRecOn generalizing t with
  | ind n ih =>
    rcases step t start with ⟨t', next', next, kept⟩ | ⟨result', result, done', done, ended⟩
    · have smaller := shrinks _ _ next
      rw [bound] at smaller
      obtain ⟨turns, result', result, found', found, ended⟩ := ih _ smaller kept rfl
      refine ⟨turns + 1, result', result, ?_, ?_, ended⟩
      · simp only [iterate, next', found']
      · rw [run_again shrinks next, found]
    · refine ⟨1, result', result, ?_, run_done done, ended⟩
      simp only [iterate, done']

end

end WkcBrowser.Lib.Loop
