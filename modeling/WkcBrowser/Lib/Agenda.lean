import WkcBrowser.Lib.Along

/-! Machines that are called again while they work. What is left to do is a stack of items; an event
either serves the item on top or is a call from outside, which only an item that waits lets in. What is
owed in a state has to be covered by an item, so that nothing is owed when nothing is left to do. -/

namespace WkcBrowser.Lib

structure Agenda (σ ι : Type) where
  state : σ
  items : List ι

/-- An item serves an event or leaves it; a call may be refused. Both say what to do next. -/
structure Reentrant (σ ι ε : Type) where
  turn : σ → ι → ε → Option (σ × List ι)
  call : σ → ε → Option (σ × List ι)
  waits : ι → Bool

namespace Reentrant

variable {σ ι ε ο : Type} (machine : Reentrant σ ι ε)

def enter (now : Agenda σ ι) (event : ε) : Agenda σ ι :=
  match machine.call now.state event with
  | some next => ⟨next.1, next.2 ++ now.items⟩
  | none => now

def step (now : Agenda σ ι) (event : ε) : Agenda σ ι :=
  match now.items with
  | [] => machine.enter now event
  | item :: rest =>
    match machine.turn now.state item event with
    | some next => ⟨next.1, next.2 ++ rest⟩
    | none => if machine.waits item then machine.enter now event else now

variable {machine}

/-- A step is a turn of the top item, a call while nothing is done or the top item waits, or nothing. -/
theorem step_cases (now : Agenda σ ι) (event : ε) :
    machine.step now event = now ∨
    (∃ item rest next, now.items = item :: rest ∧
      machine.turn now.state item event = some next ∧
      machine.step now event = ⟨next.1, next.2 ++ rest⟩) ∨
    (∀ item ∈ now.items.head?, machine.waits item = true) ∧
      ∃ next, machine.call now.state event = some next ∧
        machine.step now event = ⟨next.1, next.2 ++ now.items⟩ := by
  have entered : machine.enter now event = now ∨ ∃ next, machine.call now.state event = some next ∧
      machine.enter now event = ⟨next.1, next.2 ++ now.items⟩ := by
    unfold enter
    cases machine.call now.state event with
    | none => exact .inl rfl
    | some next => exact .inr ⟨next, rfl, rfl⟩
  unfold step
  cases stack : now.items with
  | nil =>
    rw [stack] at entered
    exact entered.imp_right fun called => .inr ⟨nofun, called⟩
  | cons item rest =>
    rw [stack] at entered
    dsimp only
    cases turned : machine.turn now.state item event with
    | some next => exact .inr (.inl ⟨item, rest, next, rfl, turned, rfl⟩)
    | none =>
      dsimp only
      split
      · rename_i waiting
        refine entered.imp_right fun called => .inr ⟨fun other first => ?_, called⟩
        cases first
        exact waiting
      · exact .inl rfl

/-- A property of states and stacks that turns and calls keep is kept by every step. -/
theorem step_keeps (keeps : σ → List ι → Prop) {ok : Agenda σ ι → ε → Prop}
    (turns : ∀ s item rest event next, keeps s (item :: rest) → ok ⟨s, item :: rest⟩ event →
      machine.turn s item event = some next → keeps next.1 (next.2 ++ rest))
    (calls : ∀ now event next, keeps now.state now.items → ok now event →
      (∀ item ∈ now.items.head?, machine.waits item = true) →
      machine.call now.state event = some next → keeps next.1 (next.2 ++ now.items))
    (now : Agenda σ ι) (event : ε) (start : keeps now.state now.items) (fine : ok now event) :
    keeps (machine.step now event).state (machine.step now event).items := by
  obtain same | ⟨item, rest, next, stack, turned, same⟩ | ⟨ready, next, called, same⟩ :=
    step_cases now event
  · rw [same]
    exact start
  · obtain ⟨s, items⟩ := now
    cases stack
    rw [same]
    exact turns _ _ _ _ _ start fine turned
  · rw [same]
    exact calls _ _ _ start fine ready called

/-- Whatever is owed is covered by an item. -/
def Covered (owed : σ → ο → Prop) (covers : ι → ο → Prop) (now : Agenda σ ι) : Prop :=
  ∀ o, owed now.state o → ∃ item ∈ now.items, covers item o

theorem Covered.settled {owed : σ → ο → Prop} {covers : ι → ο → Prop} {now : Agenda σ ι}
    (covered : Covered owed covers now) (done : now.items = []) (o : ο) : ¬owed now.state o := by
  intro owing
  obtain ⟨item, member, _⟩ := covered o owing
  rw [done] at member
  cases member

/-- Items hand on what they cover or see to it that it is no longer owed, and calls cover what they
make owed. -/
theorem covered_step {owed : σ → ο → Prop} {covers : ι → ο → Prop}
    (invariant : σ → List ι → Prop) {ok : Agenda σ ι → ε → Prop}
    (turns : ∀ s item rest event next, invariant s (item :: rest) →
      machine.turn s item event = some next → ∀ o, owed next.1 o →
        (∃ item' ∈ next.2, covers item' o) ∨ owed s o ∧ ¬covers item o)
    (calls : ∀ now event next, invariant now.state now.items → ok now event →
      machine.call now.state event = some next → ∀ o, owed next.1 o →
        owed now.state o ∨ ∃ item ∈ next.2 ++ now.items, covers item o)
    (now : Agenda σ ι) (event : ε) (kept : invariant now.state now.items) (fine : ok now event)
    (covered : Covered owed covers now) : Covered owed covers (machine.step now event) := by
  obtain same | ⟨item, rest, next, stack, turned, same⟩ | ⟨-, next, called, same⟩ :=
    step_cases now event
  · rw [same]
    exact covered
  · rw [same]
    intro o owing
    rw [stack] at kept
    obtain ⟨item', member, covers'⟩ | ⟨before, missed⟩ := turns _ _ _ _ _ kept turned o owing
    · exact ⟨item', List.mem_append_left _ member, covers'⟩
    · obtain ⟨item', member, covers'⟩ := covered o before
      rw [stack] at member
      obtain rfl | member := List.mem_cons.mp member
      · exact absurd covers' missed
      · exact ⟨item', List.mem_append_right _ member, covers'⟩
  · rw [same]
    intro o owing
    obtain before | found := calls _ _ _ kept fine called o owing
    · obtain ⟨item', member, covers'⟩ := covered o before
      exact ⟨item', List.mem_append_right _ member, covers'⟩
    · exact found

end Reentrant

end WkcBrowser.Lib
