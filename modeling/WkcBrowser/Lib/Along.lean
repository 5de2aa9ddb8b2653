import Mathlib.Data.List.Basic

/-! Runs of a machine whose steps are given by a function. What is said of a run is said of every
event in the state it comes to. Two such properties agree over all runs when an invariant makes
them agree at every event. -/

namespace WkcBrowser.Lib

section
variable {σ ε : Type} (step : σ → ε → σ)

/-- Every event of the run meets `holds` in the state it comes to. -/
def Along (holds : σ → ε → Prop) : σ → List ε → Prop
  | _, [] => True
  | s, event :: events => holds s event ∧ Along holds (step s event) events

instance (holds : σ → ε → Prop) [∀ s event, Decidable (holds s event)] :
    ∀ (s : σ) (events : List ε), Decidable (Along step holds s events)
  | _, [] => .isTrue trivial
  | s, event :: events =>
    have : Decidable (Along step holds (step s event) events) :=
      instDecidableAlong holds (step s event) events
    inferInstanceAs (Decidable (holds s event ∧ Along step holds (step s event) events))

/-- The state after the run. -/
def after (s : σ) (events : List ε) : σ := events.foldl step s

variable {step}

@[simp] theorem after_nil (s : σ) : after step s [] = s := rfl

@[simp] theorem after_cons (s : σ) (event : ε) (events : List ε) :
    after step s (event :: events) = after step (step s event) events := rfl

theorem along_of_forall {holds : σ → ε → Prop} (always : ∀ s event, holds s event) (s : σ)
    (events : List ε) : Along step holds s events := by
  induction events generalizing s with
  | nil => trivial
  | cons event events ih => exact ⟨always s event, ih _⟩

theorem along_append (holds : σ → ε → Prop) (s : σ) (before rest : List ε) :
    Along step holds s (before ++ rest) ↔
      Along step holds s before ∧ Along step holds (after step s before) rest := by
  induction before generalizing s with
  | nil => simp [Along]
  | cons event before ih =>
    simp only [List.cons_append, Along, after_cons]
    rw [ih, and_assoc]

/-- What holds at first and is kept by every event the run admits holds at its end. -/
theorem after_of_along {holds : σ → ε → Prop} (invariant : σ → Prop)
    (kept : ∀ s event, invariant s → holds s event → invariant (step s event))
    (s : σ) (events : List ε) (start : invariant s) (along : Along step holds s events) :
    invariant (after step s events) := by
  induction events generalizing s with
  | nil => exact start
  | cons event events ih => exact ih _ (kept s event start along.1) along.2

/-- What no event can restore holds at the end of a run when it holds after each of its events. -/
theorem after_iff_along {good : σ → Prop} (lasting : ∀ s event, good (step s event) → good s)
    (s : σ) (events : List ε) (start : good s) :
    good (after step s events) ↔ Along step (fun s event => good (step s event)) s events := by
  have backwards : ∀ (events : List ε) (s : σ), good (after step s events) → good s := by
    intro events
    induction events with
    | nil => exact fun _ good => good
    | cons event events ih => exact fun s good => lasting s event (ih _ good)
  induction events generalizing s with
  | nil => simp only [after_nil, Along, start]
  | cons event events ih =>
    simp only [after_cons, Along]
    constructor
    · intro atEnd
      have next := backwards events _ atEnd
      exact ⟨next, (ih _ next).mp atEnd⟩
    · rintro ⟨next, later⟩
      exact (ih _ next).mpr later

/-- Two properties of runs agree when they agree at every event that an invariant allows, and the
invariant is kept as long as they hold. -/
theorem along_iff {admits holds condition : σ → ε → Prop} (invariant : σ → Prop)
    (exact : ∀ s event, invariant s → admits s event → (holds s event ↔ condition s event))
    (kept : ∀ s event, invariant s → admits s event → holds s event → invariant (step s event))
    (s : σ) (events : List ε) (start : invariant s) (admitted : Along step admits s events) :
    Along step holds s events ↔ Along step condition s events := by
  induction events generalizing s with
  | nil => exact Iff.rfl
  | cons event events ih =>
    obtain ⟨now, later⟩ := admitted
    have agree := exact s event start now
    constructor
    · rintro ⟨good, rest⟩
      exact ⟨agree.mp good, (ih _ (kept s event start now good) later).mp rest⟩
    · rintro ⟨good, rest⟩
      have holding := agree.mpr good
      exact ⟨holding, (ih _ (kept s event start now holding) later).mpr rest⟩

end

end WkcBrowser.Lib
