import WkcBrowser.Lib.Loop

/-! Programs that call out to an environment they do not control. A program reads and changes a
state and from time to time waits for an event; what the environment does is the list of events. A
program that needs an event when none is left is still waiting, and the state it waits in is as
much a state of the system as the one it ends in. The rules below prove what holds in both. -/

namespace WkcBrowser.Lib.Interaction

open Loop (Turn)

/-- `value` is missing while the program waits. `taken` are the events it took, each with the state
it took the event in. -/
structure Outcome (σ ε α : Type) where
  value : Option α
  state : σ
  rest : List ε
  taken : List (σ × ε)

def Program (σ ε α : Type) := σ → List ε → Outcome σ ε α

namespace Program

variable {σ ε α β : Type}

instance : Monad (Program σ ε) where
  pure a := fun s events => ⟨some a, s, events, []⟩
  bind p f := fun s events =>
    let first := p s events
    match first.value with
    | none => ⟨none, first.state, first.rest, first.taken⟩
    | some a =>
      let second := f a first.state first.rest
      ⟨second.value, second.state, second.rest, first.taken ++ second.taken⟩

def read (f : σ → α) : Program σ ε α :=
  fun s events => ⟨some (f s), s, events, []⟩

def update (f : σ → σ) : Program σ ε Unit :=
  fun s events => ⟨some (), f s, events, []⟩

/-- Waits for an event that is acceptable in the present state; others cannot happen in it and are
passed over. -/
def await (accept : σ → ε → Option α) : Program σ ε α :=
  fun s events => go s events
where
  go (s : σ) : List ε → Outcome σ ε α
    | [] => ⟨none, s, [], []⟩
    | event :: rest =>
      match accept s event with
      | some a => ⟨some a, s, rest, [(s, event)]⟩
      | none => go s rest

/-- At most the given number of turns of a loop. -/
def attempts (turn : β → Program σ ε (Turn β α)) : Nat → β → Program σ ε α
  | 0, _ => fun s events => ⟨none, s, events, []⟩
  | turns + 1, b => do
    match ← turn b with
    | .again b' => attempts turn turns b'
    | .done a => pure a

/-- What is left to do, where a state holds `size` pieces of work and an event may bring one. -/
def budget (size : σ → Nat) (s : σ) (events : List ε) : Nat :=
  size s + 2 * events.length

def loop (size : σ → Nat) (turn : β → Program σ ε (Turn β α)) (b : β) : Program σ ε α :=
  fun s events => attempts turn (budget size s events + 1) b s events

end Program

open Program

section
variable {σ ε α β : Type} {ok : σ → ε → Prop} {within : σ → Prop}

/-- Started in `s`, and as long as every event it takes is `ok`, the program ends in `post` and
waits in `within`. -/
def Meets (ok : σ → ε → Prop) (within : σ → Prop) (p : Program σ ε α) (s : σ)
    (post : α → σ → Prop) : Prop :=
  ∀ events, (∀ event ∈ (p s events).taken, ok event.1 event.2) →
    match (p s events).value with
    | some a => post a (p s events).state
    | none => within (p s events).state

theorem Meets.mono {p : Program σ ε α} {s : σ} {post post' : α → σ → Prop}
    (meets : Meets ok within p s post) (weaker : ∀ a s', post a s' → post' a s') :
    Meets ok within p s post' := by
  intro events fine
  have found := meets events fine
  split at found
  · exact weaker _ _ found
  · exact found

theorem Meets.waits {within' : σ → Prop} {p : Program σ ε α} {s : σ} {post : α → σ → Prop}
    (meets : Meets ok within p s post) (weaker : ∀ s', within s' → within' s') :
    Meets ok within' p s post := by
  intro events fine
  have found := meets events fine
  split at found
  · exact found
  · exact weaker _ found

theorem Meets.and {within' : σ → Prop} {p : Program σ ε α} {s : σ} {post post' : α → σ → Prop}
    (meets : Meets ok within p s post) (meets' : Meets ok within' p s post') :
    Meets ok within p s fun a s' => post a s' ∧ post' a s' := by
  intro events fine
  have found := meets events fine
  have found' := meets' events fine
  cases value : (p s events).value with
  | none =>
    rw [value] at found
    exact found
  | some a =>
    rw [value] at found found'
    exact ⟨found, found'⟩

theorem meets_pure {a : α} {s : σ} {post : α → σ → Prop} (holds : post a s) :
    Meets ok within (pure a) s post :=
  fun _ _ => holds

theorem meets_read {f : σ → α} {s : σ} {post : α → σ → Prop} (holds : post (f s) s) :
    Meets ok within (read f) s post :=
  fun _ _ => holds

theorem meets_update {f : σ → σ} {s : σ} {post : Unit → σ → Prop} (holds : post () (f s)) :
    Meets ok within (update f) s post :=
  fun _ _ => holds

theorem meets_bind {p : Program σ ε α} {f : α → Program σ ε β} {s : σ} {post : β → σ → Prop}
    (meets : Meets ok within p s fun a s' => Meets ok within (f a) s' post) :
    Meets ok within (p >>= f) s post := by
  intro events fine
  simp only [bind] at fine ⊢
  have found := meets events
  cases value : (p s events).value with
  | none =>
    rw [value] at fine found
    exact found fine
  | some a =>
    rw [value] at fine found
    exact found (fun event member => fine event (List.mem_append_left _ member)) _
      fun event member => fine event (List.mem_append_right _ member)

theorem meets_await {accept : σ → ε → Option α} {s : σ} {post : α → σ → Prop} (waits : within s)
    (takes : ∀ event a, accept s event = some a → ok s event → post a s) :
    Meets ok within (await accept) s post := by
  intro events
  unfold await
  induction events with
  | nil => exact fun _ => waits
  | cons event rest ih =>
    intro fine
    simp only [await.go] at fine ⊢
    cases accepted : accept s event with
    | none =>
      rw [accepted] at fine
      exact ih fine
    | some a =>
      rw [accepted] at fine
      exact takes event a accepted (fine _ List.mem_cons_self)

theorem meets_ite {condition : Prop} [Decidable condition] {p q : Program σ ε α} {s : σ}
    {post : α → σ → Prop} (yes : condition → Meets ok within p s post)
    (no : ¬condition → Meets ok within q s post) :
    Meets ok within (if condition then p else q) s post := by
  split
  · exact yes ‹_›
  · exact no ‹_›

/-- A loop keeps what each of its turns keeps. -/
theorem meets_attempts {turn : β → Program σ ε (Turn β α)} {post : α → σ → Prop}
    (invariant : β → σ → Prop) (waits : ∀ b s, invariant b s → within s)
    (kept : ∀ b s, invariant b s → Meets ok within (turn b) s fun next s' =>
      match next with
      | .again b' => invariant b' s'
      | .done a => post a s')
    (turns : Nat) {b : β} {s : σ} (start : invariant b s) :
    Meets ok within (attempts turn turns b) s post := by
  induction turns generalizing b s with
  | zero => exact fun _ _ => waits b s start
  | succ turns ih =>
    apply meets_bind
    apply (kept b s start).mono
    intro next s' found
    cases next with
    | again b' => exact ih found
    | done a => exact meets_pure found

theorem meets_loop {size : σ → Nat} {turn : β → Program σ ε (Turn β α)} {post : α → σ → Prop}
    (invariant : β → σ → Prop) (waits : ∀ b s, invariant b s → within s)
    (kept : ∀ b s, invariant b s → Meets ok within (turn b) s fun next s' =>
      match next with
      | .again b' => invariant b' s'
      | .done a => post a s')
    {b : β} {s : σ} (start : invariant b s) : Meets ok within (loop size turn b) s post :=
  fun events => meets_attempts invariant waits kept _ start events

end

section
variable {σ ε : Type} (call : ε → Program σ ε Unit) (ok : σ → ε → Prop) (init : σ)

/-- The states between two calls, when all events, the calls themselves included, are `ok`. -/
inductive Idle : σ → Prop where
  | init : Idle init
  | call {s : σ} (idle : Idle s) (event : ε) (fine : ok s event) (events : List ε)
    (taken : ∀ step ∈ (call event s events).taken, ok step.1 step.2)
    (ended : (call event s events).value = some ()) : Idle (call event s events).state

/-- The states a system is in between two calls or while a call waits. -/
inductive Reachable : σ → Prop where
  | idle {s : σ} (idle : Idle call ok init s) : Reachable s
  | waiting {s : σ} (idle : Idle call ok init s) (event : ε) (fine : ok s event) (events : List ε)
    (taken : ∀ step ∈ (call event s events).taken, ok step.1 step.2)
    (waits : (call event s events).value = none) : Reachable (call event s events).state

variable {call ok init} {within keeps : σ → Prop}

/-- What holds at the start and is kept by every call holds between any two calls. -/
theorem Idle.invariant (start : keeps init)
    (kept : ∀ s event, keeps s → ok s event →
      Meets ok within (call event) s fun _ s' => keeps s')
    {s : σ} (idle : Idle call ok init s) : keeps s := by
  induction idle with
  | init => exact start
  | call _ event fine events taken ended ih =>
    have found := kept _ event ih fine events taken
    rw [ended] at found
    exact found

theorem Reachable.invariant (start : keeps init) (weaker : ∀ s, keeps s → within s)
    (kept : ∀ s event, keeps s → ok s event →
      Meets ok within (call event) s fun _ s' => keeps s')
    {s : σ} (reachable : Reachable call ok init s) : within s := by
  cases reachable with
  | idle idle => exact weaker s (idle.invariant start kept)
  | waiting idle event fine events taken waits =>
    have found := kept _ event (idle.invariant start kept) fine events taken
    rw [waits] at found
    exact found

end

end WkcBrowser.Lib.Interaction
