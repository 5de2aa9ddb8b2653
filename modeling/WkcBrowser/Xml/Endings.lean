import Mathlib.Order.Nat
import WkcBrowser.Lib.Along
import WkcBrowser.Xml.XMLHttpRequest

/-! What ends the sends of an `XMLHttpRequest`. While a load is under way its send has not ended; when the
load is over an item on the stack brings the end, and nothing else happens before it. -/

namespace WkcBrowser.Xml

open Lib

namespace XMLHttpRequest

/-- While a load is under way the request is open, or receives, and has not failed. -/
def Open (s : XMLHttpRequest) : Prop :=
  s.active = true →
    (s.readyState = .opened ∨ s.readyState = .headersReceived ∨ s.readyState = .loading) ∧
      s.error = false

/-- No send is ended twice or lost. -/
def EndedOnce (s : XMLHttpRequest) : Prop :=
  ∀ id, s.endings id = [] ∨ ∃ how, s.endings id = [how] ∧ how ≠ .lost

/-- A send that has not ended is loading. -/
def Accounted (s : XMLHttpRequest) : Prop :=
  ∀ id < s.sends, s.endings id = [] → s.loader = some id ∧ s.loading = true

/-- A send that is loading has not ended. -/
def Unended (s : XMLHttpRequest) : Prop :=
  ∀ id, s.loader = some id → s.loading = true → s.endings id = []

/-- At every moment an active loader belongs to an open request, and to a send that has not ended, and
no send has ended twice or was lost; between calls every send that is not loading has ended. -/
structure Survives (now : Agenda XMLHttpRequest Item) : Prop where
  opened : now.state.Open
  unended : now.state.Unended
  once : now.state.EndedOnce
  accounted : now.items = [] → now.state.Accounted

/-- The object is called before it has done its work in none of the ways that it does not survive.
When `loadstart` is handled the request is still open and none is loading; when the headers of a load
that has finished are handled, or that a request is aborted or has failed, no other has been started; a
request whose end is handled has not been opened or aborted; and a loader does not report the failure of
a load that goes on. -/
def Clean (now : Agenda XMLHttpRequest Item) (event : Event) : Prop :=
  let s := now.state
  match now.items, event with
  | .create :: _, .created true => s.active = false ∧ s.error = false ∧
    (s.readyState = .opened ∨ s.readyState = .headersReceived ∨ s.readyState = .loading)
  | .create :: _, .created false | .create :: _, .didFail _ _ => s.active = false
  | .finish :: _, .proceed | .networkErrorDone :: _, .proceed | .abortDone :: _, .proceed =>
    s.active = false
  | .readyStateChanged :: _, .proceed =>
    s.readyState = .done → s.error = false → ∀ id, s.latest = some id → s.endings id = []
  | .errorEvent (some id) :: _, .proceed | .abortEvent (some id) :: _, .proceed => s.endings id = []
  | [], .didFail _ beyond | .dispatchEvent .. :: _, .didFail _ beyond => beyond = false → s.active = false
  | [], .didFailRedirectCheck | .dispatchEvent .. :: _, .didFailRedirectCheck => s.active = false
  | _, _ => True

/-- The load of a send is over, and the item on the stack brings what ends the send. -/
def Brings (s : XMLHttpRequest) (id : Nat) : Item → Prop
  | .finish => s.active = false ∧ s.loader = some id ∧ s.error = false ∧
    (s.readyState = .headersReceived ∨ s.readyState = .loading)
  | .readyStateChanged => s.loader = none ∧ s.error = false ∧ s.readyState = .done
  | .errorEvent send | .abortEvent send =>
    send = some id ∧ s.active = false ∧ s.loader = some id ∧ s.error = true ∧ s.readyState = .done
  | _ => False

/-- An item that waits for a handler of a change of the state. -/
def Item.Idle : Item → Prop
  | .dispatchEvent .. | .readyStateChanged => True
  | _ => False

/-- The latest send has not ended, and nothing comes before the item that brings its end. -/
def Pending (now : Agenda XMLHttpRequest Item) : Prop :=
  ∃ id above item below, now.items = above ++ item :: below ∧ (∀ other ∈ above, Item.Idle other) ∧
    now.state.Brings id item ∧ id + 1 = now.state.sends ∧ now.state.endings id = [] ∧
    ∀ other < id, now.state.endings other ≠ []

/-- The send whose end the item brings. -/
def Item.send : Item → Option Nat
  | .errorEvent send | .abortEvent send => send
  | _ => none

/-- Sends whose failure is to be told are not loading. -/
def Named (now : Agenda XMLHttpRequest Item) : Prop :=
  ∀ item ∈ now.items, ∀ id, Item.send item = some id →
    id < now.state.sends ∧ ¬(now.state.loader = some id ∧ now.state.loading = true)

structure Orderly (now : Agenda XMLHttpRequest Item) : Prop where
  opened : now.state.Open
  unended : now.state.Unended
  once : now.state.EndedOnce
  fresh : ∀ id, now.state.sends ≤ id → now.state.endings id = []
  latest : ∀ id, now.state.loader = some id → id + 1 = now.state.sends
  mode : now.state.Accounted ∨ Pending now

section
variable {s : XMLHttpRequest} {now : Agenda XMLHttpRequest Item}

theorem Orderly.survives (orderly : Orderly now) : Survives now where
  opened := orderly.opened
  unended := orderly.unended
  once := orderly.once
  accounted none_ := by
    obtain accounted | ⟨id, above, item, below, stack, -⟩ := orderly.mode
    · exact accounted
    · rw [none_] at stack
      exact absurd stack.symm (List.append_ne_nil_of_right_ne_nil _ (List.cons_ne_nil _ _))

/-- Pending ends are brought while nothing loads. -/
theorem inactive_of_brings {id : Nat} {item : Item} (brings : s.Brings id item) :
    s.active = false := by
  cases item <;> try exact brings.elim
  · obtain ⟨none_, -⟩ := brings
    rw [active, none_, Option.isSome_none, Bool.false_and]
  · exact brings.2.1
  · exact brings.2.1
  · exact brings.1

/-- Where nothing loads nothing has to end any more, or its end is on the way. -/
theorem ended_of_accounted (accounted : s.Accounted) (inactive : s.active = false) (id : Nat)
    (started : id < s.sends) : s.endings id ≠ [] := by
  intro none_
  obtain ⟨loader, loading⟩ := accounted id started none_
  rw [active, loader, loading] at inactive
  cases inactive

end

/-- The loader and the ends of the sends are left alone. -/
structure Kept (s s' : XMLHttpRequest) : Prop where
  loader : s'.loader = s.loader := by rfl
  loading : s'.loading = s.loading := by rfl
  sends : s'.sends = s.sends := by rfl
  endings : s'.endings = s.endings := by rfl

section
variable {s s' : XMLHttpRequest} {items items' : List Item}

theorem Kept.active (kept : Kept s s') : s'.active = s.active := by
  rw [XMLHttpRequest.active, kept.loader, kept.loading, XMLHttpRequest.active]

theorem Kept.accounted (kept : Kept s s') (accounted : s.Accounted) : s'.Accounted := by
  intro id started
  rw [kept.loader, kept.loading, kept.endings]
  exact accounted id (kept.sends ▸ started)

theorem kept_changeState (s : XMLHttpRequest) (newState : ReadyState) :
    Kept s (s.changeState newState).1 := by
  unfold changeState
  split <;> exact ⟨rfl, rfl, rfl, rfl⟩

/-- Where nothing about the sends changes only the state of an active request matters. -/
theorem Orderly.kept (orderly : Orderly ⟨s, items⟩) (kept : Kept s s') (opened : s'.Open)
    (mode : s'.Accounted ∨ Pending ⟨s', items'⟩) : Orderly ⟨s', items'⟩ where
  opened := opened
  unended id := by
    rw [kept.loader, kept.loading, kept.endings]
    exact orderly.unended id
  once id := by
    rw [kept.endings]
    exact orderly.once id
  fresh id := by
    rw [kept.endings, kept.sends]
    exact orderly.fresh id
  latest id := by
    rw [kept.loader, kept.sends]
    exact orderly.latest id
  mode := mode

theorem open_of_inactive (inactive : s.active = false) : s.Open := by
  intro active
  rw [inactive] at active
  cases active

theorem lose_of_inactive (inactive : s.active = false) : s.lose = s := by
  rw [lose, inactive, if_neg Bool.false_ne_true]

theorem mem_ended {send : Option Nat} {how : Ending} (id : Nat) :
    (s.ended send how).endings id =
      if send = some id then s.endings id ++ [how] else s.endings id := by
  cases send with
  | none => rfl
  | some other =>
    by_cases same : id = other
    · subst same
      simp only [ended, Function.update_self, if_true]
    · rw [if_neg (fun found => same (Option.some.inj found).symm)]
      exact Function.update_of_ne same _ _

theorem once_ended {send : Option Nat} {how : Ending} (once : s.EndedOnce)
    (open_ : ∀ id, send = some id → s.endings id = []) (proper : how ≠ .lost) :
    (s.ended send how).EndedOnce := by
  intro id
  rw [mem_ended]
  split
  · rename_i found
    rw [open_ id found]
    exact .inr ⟨how, rfl, proper⟩
  · exact once id

/-- What ends a send leaves the rest alone. -/
theorem ended_state (send : Option Nat) (how : Ending) :
    (s.ended send how).loader = s.loader ∧ (s.ended send how).loading = s.loading ∧
      (s.ended send how).sends = s.sends ∧ (s.ended send how).readyState = s.readyState ∧
      (s.ended send how).error = s.error := by
  cases send <;> exact ⟨rfl, rfl, rfl, rfl, rfl⟩

theorem active_ended (send : Option Nat) (how : Ending) :
    (s.ended send how).active = s.active := by
  obtain ⟨loader, loading, -⟩ := ended_state (s := s) send how
  rw [active, loader, loading, active]

/-- A send that had not ended is ended. -/
theorem Orderly.ended (orderly : Orderly ⟨s, items⟩) {send : Option Nat} {how : Ending}
    (started : ∀ id, send = some id → id < s.sends ∧ s.endings id = [])
    (beyond : ∀ id, send = some id → ¬(s.loader = some id ∧ s.loading = true)) (proper : how ≠ .lost)
    (accounted : (s.ended send how).Accounted) : Orderly ⟨s.ended send how, items'⟩ := by
  obtain ⟨loader, loading, sends, readyState, error⟩ := ended_state (s := s) send how
  refine ⟨?_, ?_, once_ended orderly.once (fun id found => (started id found).2) proper, ?_, ?_,
    .inl accounted⟩
  · intro active
    rw [active_ended] at active
    simp only [readyState, error]
    exact orderly.opened active
  · intro id found loads
    simp only [loader, loading] at found loads
    rw [mem_ended, if_neg (fun same => beyond id same ⟨found, loads⟩)]
    exact orderly.unended id found loads
  · intro id later
    simp only [sends] at later
    simp only [mem_ended]
    rw [if_neg, orderly.fresh id later]
    intro found
    exact absurd (started id found).1 (Nat.not_lt.mpr later)
  · intro id found
    simp only [loader] at found
    simp only [sends]
    exact orderly.latest id found

/-- Ends that are added leave a request accounted for. -/
theorem accounted_ended (send : Option Nat) (how : Ending) (accounted : s.Accounted) :
    (s.ended send how).Accounted := by
  obtain ⟨loader, loading, sends, -⟩ := ended_state (s := s) send how
  intro id started none_
  rw [loader, loading]
  apply accounted id (sends ▸ started)
  rw [mem_ended] at none_
  split at none_
  · exact absurd none_ (List.append_ne_nil_of_right_ne_nil _ (List.cons_ne_nil _ _))
  · exact none_

/-- After a call of the script everything has ended. -/
theorem endAll_endings {how : Ending} {id : Nat} (started : id < s.sends) :
    (s.endAll how).endings id ≠ [] := by
  simp only [endAll]
  split
  · exact List.cons_ne_nil _ _
  · rename_i open_
    exact fun none_ => open_ ⟨started, none_⟩

theorem Orderly.endAll (orderly : Orderly ⟨s, items⟩) {how : Ending} (proper : how ≠ .lost)
    (none_ : s'.loader = none) (sends : s'.sends = s.sends)
    (endings : s'.endings = (s.endAll how).endings) : Orderly ⟨s', items'⟩ where
  opened := by
    apply open_of_inactive
    rw [active, none_, Option.isSome_none, Bool.false_and]
  unended id found := by
    simp only [none_] at found
    cases found
  once id := by
    simp only [endings, XMLHttpRequest.endAll]
    split
    · exact .inr ⟨how, rfl, proper⟩
    · exact orderly.once id
  fresh id later := by
    simp only [sends] at later
    simp only [endings, XMLHttpRequest.endAll]
    rw [if_neg (fun found => absurd found.1 (Nat.not_lt.mpr later))]
    exact orderly.fresh id later
  latest id found := by
    simp only [none_] at found
    cases found
  mode := by
    refine .inl fun id started open_ => ?_
    simp only [sends] at started
    simp only [endings] at open_
    exact absurd open_ (endAll_endings started)

theorem kept_genericError (s : XMLHttpRequest) : Kept s s.genericError.1 := by
  unfold genericError changeState
  split <;> exact ⟨rfl, rfl, rfl, rfl⟩

/-- A failure leaves the loader alone but for its load, which it may end. -/
theorem kept_didFail (send : Option Nat) (cancellation beyond : Bool) :
    Kept { s with loading := s.loading && !beyond } (s.didFail send cancellation beyond).1 := by
  unfold didFail
  dsimp only
  split
  · exact ⟨rfl, rfl, rfl, rfl⟩
  have failed := kept_genericError
    { s with didTellLoaderAboutRequest := false, loading := s.loading && !beyond }
  split <;> exact ⟨failed.loader, failed.loading, failed.sends, failed.endings⟩

/-- A new loader, where nothing loads. -/
theorem orderly_created (orderly : Orderly ⟨s, items⟩) (accounted : s.Accounted)
    (inactive : s.active = false)
    (opened : s.readyState = .opened ∨ s.readyState = .headersReceived ∨ s.readyState = .loading)
    (error : s.error = false) : Orderly ⟨s.created true, items'⟩ := by
  have all : ∀ id < s.sends, s.endings id ≠ [] := ended_of_accounted accounted inactive
  simp only [created, lose_of_inactive inactive]
  refine ⟨fun _ => ⟨opened, error⟩, ?_, orderly.once, ?_, ?_, .inl ?_⟩
  · intro id found _
    rw [← Option.some.inj found]
    exact orderly.fresh _ (Nat.le_refl _)
  · exact fun id later => orderly.fresh id (Nat.le_of_succ_le later)
  · intro id found
    rw [← Option.some.inj found]
  · intro id started none_
    obtain earlier | rfl := Nat.lt_succ_iff_lt_or_eq.mp started
    · exact absurd none_ (all id earlier)
    · exact ⟨rfl, rfl⟩

/-- Where nothing loads the loader may go. -/
theorem orderly_cleared (orderly : Orderly ⟨s, items⟩) (accounted : s.Accounted)
    (inactive : s.active = false) (none_ : s'.loader = none) (sends : s'.sends = s.sends)
    (endings : s'.endings = s.endings) : Orderly ⟨s', items'⟩ where
  opened := by
    apply open_of_inactive
    rw [active, none_, Option.isSome_none, Bool.false_and]
  unended id found := by
    simp only [none_] at found
    cases found
  once id := by
    rw [endings]
    exact orderly.once id
  fresh id := by
    rw [endings, sends]
    exact orderly.fresh id
  latest id found := by
    simp only [none_] at found
    cases found
  mode := by
    refine .inl fun id started open_ => ?_
    rw [sends] at started
    rw [endings] at open_
    exact absurd open_ (ended_of_accounted accounted inactive id started)

theorem orderly_uploadEvent (orderly : Orderly ⟨s, items⟩) (accounted : s.Accounted)
    (type : EventType) : Orderly ⟨(s.uploadEvent type).1, items'⟩ := by
  unfold uploadEvent
  split
  · exact orderly.kept ⟨rfl, rfl, rfl, rfl⟩ orderly.opened (.inl accounted)
  · exact orderly.kept ⟨rfl, rfl, rfl, rfl⟩ orderly.opened (.inl accounted)

theorem orderly_sentData (orderly : Orderly ⟨s, items⟩) (accounted : s.Accounted)
    (all : Bool) : Orderly ⟨(s.sentData all).1, items'⟩ := by
  unfold sentData
  split
  · exact orderly.kept ⟨rfl, rfl, rfl, rfl⟩ orderly.opened (.inl accounted)
  · exact orderly.kept ⟨rfl, rfl, rfl, rfl⟩ orderly.opened (.inl accounted)

theorem orderly_received (orderly : Orderly ⟨s, items⟩) (accounted : s.Accounted) :
    Orderly ⟨s.received.1, items'⟩ := by
  unfold received
  split
  · rename_i different
    rw [changeState, if_pos different]
    refine orderly.kept ⟨rfl, rfl, rfl, rfl⟩ (fun active => ?_) (.inl accounted)
    exact ⟨.inr (.inr rfl), (orderly.opened active).2⟩
  · exact orderly.kept ⟨rfl, rfl, rfl, rfl⟩ orderly.opened (.inl accounted)

theorem latest_eq_some {id : Nat} (found : s.latest = some id) : id + 1 = s.sends := by
  unfold latest at found
  split at found
  · cases found
  · have same := Option.some.inj found
    omega

theorem orderly_readyStateChanged (orderly : Orderly ⟨s, items⟩) (accounted : s.Accounted)
    (clean : s.readyState = .done → s.error = false → ∀ id, s.latest = some id → s.endings id = []) :
    Orderly ⟨s.readyStateChanged.1, items'⟩ := by
  unfold readyStateChanged
  split
  · rename_i done
    obtain ⟨done, error⟩ := done
    apply orderly.ended _ _ Ending.noConfusion (accounted_ended _ _ accounted)
    · intro id found
      have last := latest_eq_some found
      exact ⟨by omega, clean done (by simpa using error) id found⟩
    · rintro id - ⟨loader, loading⟩
      have active : s.active = true := by
        rw [active, loader, loading]
        rfl
      have opened := (orderly.opened active).1
      simp only [done, reduceCtorEq, or_self] at opened
  · exact orderly.kept ⟨rfl, rfl, rfl, rfl⟩ orderly.opened (.inl accounted)

/-- Ends that are brought when nothing is pending any more would be second ones. -/
theorem orderly_ended (orderly : Orderly ⟨s, items⟩) (accounted : s.Accounted) {send : Option Nat}
    {how : Ending} (proper : how ≠ .lost)
    (started : ∀ id, send = some id → id < s.sends ∧ s.endings id = [])
    (beyond : ∀ id, send = some id → ¬(s.loader = some id ∧ s.loading = true)) :
    Orderly ⟨s.ended send how, items'⟩ :=
  orderly.ended started beyond proper (accounted_ended send how accounted)

variable {item : Item} {rest : List Item} {event : Event} {next : XMLHttpRequest × List Item}

theorem orderly_turn_accounted (orderly : Orderly ⟨s, item :: rest⟩)
    (named : Named ⟨s, item :: rest⟩) (accounted : s.Accounted)
    (clean : Clean ⟨s, item :: rest⟩ event) (turned : s.turn item event = some next) :
    Orderly ⟨next.1, next.2 ++ rest⟩ := by
  have owner := named item List.mem_cons_self
  unfold turn at turned
  split at turned <;> cases turned
  · exact orderly.kept ⟨rfl, rfl, rfl, rfl⟩ orderly.opened (.inl accounted)
  · exact orderly_readyStateChanged orderly accounted clean
  · exact orderly.kept ⟨rfl, rfl, rfl, rfl⟩ orderly.opened (.inl accounted)
  · exact orderly.kept ⟨rfl, rfl, rfl, rfl⟩ (fun active => ⟨(orderly.opened active).1, rfl⟩) (.inl accounted)
  · rename_i loader
    cases loader with
    | true => exact orderly_created orderly accounted clean.1 clean.2.2 clean.2.1
    | false =>
      simp only [created, lose_of_inactive clean]
      exact orderly_cleared orderly accounted clean rfl rfl rfl
  · rename_i cancellation beyond
    have failed := kept_didFail (s := s) none cancellation false
    have kept : Kept s (s.didFail none cancellation false).1 :=
      ⟨failed.loader, failed.loading.trans (Bool.and_true _), failed.sends, failed.endings⟩
    exact orderly.kept kept (open_of_inactive (kept.active.trans clean))
      (.inl (kept.accounted accounted))
  · exact orderly.kept ⟨rfl, rfl, rfl, rfl⟩ (open_of_inactive clean) (.inl accounted)
  · rename_i send
    cases send with
    | none => exact orderly.kept ⟨rfl, rfl, rfl, rfl⟩ orderly.opened (.inl accounted)
    | some id =>
      refine orderly_ended orderly accounted Ending.noConfusion ?_ fun id same => (owner id same).2
      exact fun other same => ⟨(owner other same).1, Option.some.inj same ▸ clean⟩
  · rename_i send
    cases send with
    | none => exact orderly.kept ⟨rfl, rfl, rfl, rfl⟩ orderly.opened (.inl accounted)
    | some id =>
      refine orderly_ended orderly accounted Ending.noConfusion ?_ fun id same => (owner id same).2
      exact fun other same => ⟨(owner other same).1, Option.some.inj same ▸ clean⟩
  · exact orderly_uploadEvent orderly accounted _
  · rw [lose_of_inactive clean]
    exact orderly_cleared orderly accounted clean rfl rfl rfl
  · unfold finish
    rw [lose_of_inactive clean]
    have kept := kept_changeState { s with loader := none, loading := false } .done
    exact orderly_cleared orderly accounted clean kept.loader kept.sends kept.endings
  · exact orderly.kept ⟨rfl, rfl, rfl, rfl⟩ orderly.opened (.inl accounted)
  · exact orderly_received orderly accounted
  · exact orderly_sentData orderly accounted _

end

end XMLHttpRequest

end WkcBrowser.Xml
