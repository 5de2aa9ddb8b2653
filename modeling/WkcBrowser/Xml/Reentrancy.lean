import WkcBrowser.Xml.Handlers

/-! Requests whose event handlers call back. Which calls of its handlers, made before a function has done
its work, an `XMLHttpRequest` does not survive. -/

namespace WkcBrowser.Xml

open Lib

namespace XMLHttpRequest

section
variable {s s' : XMLHttpRequest} {items items' : List Item}
variable {item : Item} {rest : List Item} {event : Event} {next : XMLHttpRequest × List Item}

/-- No send starts to load that had started before, and the items bring the end of none. -/
structure Later (s : XMLHttpRequest) (next : XMLHttpRequest × List Item) : Prop where
  sends : s.sends ≤ next.1.sends
  loads : ∀ id < s.sends, next.1.loader = some id → next.1.loading = true →
    s.loader = some id ∧ s.loading = true
  silent : ∀ item ∈ next.2, Item.send item = none

theorem Later.kept (kept : Kept s s') (silent : ∀ item ∈ items, Item.send item = none) :
    Later s (s', items) where
  sends := kept.sends.ge
  loads _ _ loader loading := ⟨kept.loader ▸ loader, kept.loading ▸ loading⟩
  silent := silent

theorem Later.cleared (none_ : s'.loader = none) (sends : s'.sends = s.sends)
    (silent : ∀ item ∈ items, Item.send item = none) : Later s (s', items) where
  sends := sends.ge
  loads _ _ loader := by
    rw [none_] at loader
    cases loader
  silent := silent

theorem silent_changeState (s : XMLHttpRequest) (newState : ReadyState) :
    ∀ item ∈ (s.changeState newState).2, Item.send item = none := by
  unfold changeState
  split <;> simp [callReadyStateChangeListener, Item.send]

theorem lose_state (s : XMLHttpRequest) : s.lose.sends = s.sends := by
  unfold lose
  split
  · exact (ended_state _ _).2.2.1
  · rfl

theorem later_created (s : XMLHttpRequest) (loader : Bool) : Later s (s.created loader, []) := by
  cases loader with
  | true =>
    refine ⟨Nat.le_succ s.sends, ?_, List.forall_mem_nil _⟩
    intro id earlier found
    have same := Option.some.inj found
    omega
  | false => exact .cleared rfl (lose_state s) (List.forall_mem_nil _)

theorem later_ended (send : Option Nat) (how : Ending) (type : EventType) :
    Later s (s.ended send how, [.dispatchEvent type false]) := by
  obtain ⟨loader, loading, sends, -⟩ := ended_state (s := s) send how
  refine ⟨sends.ge, fun id _ found loads => ?_, by simp [Item.send]⟩
  rw [loader] at found
  rw [loading] at loads
  exact ⟨found, loads⟩

theorem later_finish (s : XMLHttpRequest) : Later s s.finish := by
  have kept := kept_changeState { s.lose with loader := none, loading := false } .done
  exact .cleared kept.loader (kept.sends.trans (lose_state s)) (silent_changeState _ _)

/-- A request that never became a send has no end to bring. -/
theorem silent_didFail (cancellation beyond : Bool) :
    ∀ item ∈ (s.didFail none cancellation beyond).2, Item.send item = none := by
  unfold didFail
  dsimp only
  split
  · exact List.forall_mem_nil _
  have silent := silent_changeState { s with
    requestEntityBody := false
    error := true
    didTellLoaderAboutRequest := false
    loading := s.loading && !beyond } .done
  split
  · exact List.forall_mem_append.mpr ⟨silent, by simp [Item.send]⟩
  · exact List.forall_mem_append.mpr ⟨silent, by simp [Item.send]⟩

theorem later_turn (turned : s.turn item event = some next) : Later s next := by
  unfold turn at turned
  split at turned <;> cases turned
  · exact .kept ⟨rfl, rfl, rfl, rfl⟩ (List.forall_mem_nil _)
  · unfold readyStateChanged
    split
    · exact later_ended _ _ _
    · exact .kept ⟨rfl, rfl, rfl, rfl⟩ (List.forall_mem_nil _)
  · refine .kept ⟨rfl, rfl, rfl, rfl⟩ ?_
    unfold uploadLoadStart
    split <;> simp [Item.send]
  · exact .kept ⟨rfl, rfl, rfl, rfl⟩ (by simp [Item.send])
  · exact later_created s _
  · rename_i cancellation beyond
    have failed := kept_didFail (s := s) none cancellation false
    refine .kept ⟨failed.loader, failed.loading.trans (Bool.and_true _), failed.sends,
      failed.endings⟩ ?_
    intro item member
    obtain before | after := List.mem_append.mp member
    · exact silent_didFail cancellation false item before
    · rw [List.mem_singleton.mp after]
      rfl
  · exact .kept ⟨rfl, rfl, rfl, rfl⟩ (List.forall_mem_nil _)
  · exact later_ended _ _ _
  · exact later_ended _ _ _
  · unfold uploadEvent
    split
    · exact .kept ⟨rfl, rfl, rfl, rfl⟩ (List.forall_mem_nil _)
    · refine .kept ⟨rfl, rfl, rfl, rfl⟩ ?_
      split <;> simp [Item.send]
  · exact .cleared rfl (lose_state s) (List.forall_mem_nil _)
  · exact later_finish s
  · refine .kept ⟨rfl, rfl, rfl, rfl⟩ ?_
    unfold receiveData
    split <;> simp [Item.send]
  · unfold received
    split
    · exact .kept (kept_changeState s .loading) (silent_changeState s .loading)
    · exact .kept ⟨rfl, rfl, rfl, rfl⟩ (by simp [callReadyStateChangeListener, Item.send])
  · unfold sentData
    split
    · refine .kept ⟨rfl, rfl, rfl, rfl⟩ ?_
      split <;> simp [Item.send]
    · exact .kept ⟨rfl, rfl, rfl, rfl⟩ (List.forall_mem_nil _)

theorem Named.later {rest : List Item} (named : Named ⟨s, rest⟩) (later : Later s next) :
    Named ⟨next.1, next.2 ++ rest⟩ := by
  intro item member id found
  obtain new | old := List.mem_append.mp member
  · rw [later.silent item new] at found
    cases found
  · obtain ⟨started, beyond⟩ := named item old id found
    refine ⟨Nat.lt_of_lt_of_le started later.sends, ?_⟩
    rintro ⟨loader, loading⟩
    exact beyond (later.loads id started loader loading)

theorem later_openCall (s : XMLHttpRequest) (allowed : Bool) : Later s (s.openCall allowed) := by
  unfold openCall
  dsimp only
  split
  · split
    · have kept := kept_changeState { (s.endAll .openCall).internalAbort with
        readyState := .unsent
        error := false
        uploadComplete := false
        requestEntityBody := false } .opened
      exact .cleared kept.loader kept.sends (by simp [callReadyStateChangeListener, Item.send])
    · exact .cleared rfl rfl (List.forall_mem_nil _)
  · exact .cleared rfl rfl (List.forall_mem_nil _)

theorem later_abort (s : XMLHttpRequest) : Later s s.abort := by
  unfold abort
  dsimp only
  split
  · exact .cleared rfl rfl (by simp [Item.send])
  · have kept := kept_changeState (s.endAll .abortCall).internalAbort .done
    refine .cleared kept.loader kept.sends ?_
    exact List.forall_mem_append.mpr ⟨silent_changeState _ _, by simp [Item.send]⟩

theorem later_didFinishLoading (s : XMLHttpRequest) : Later s s.didFinishLoading := by
  unfold didFinishLoading
  dsimp only
  split
  · exact ⟨Nat.le_refl _, fun _ _ _ loads => Bool.noConfusion loads, List.forall_mem_nil _⟩
  split
  · have kept := kept_changeState { s with didTellLoaderAboutRequest := false, loading := false }
      .headersReceived
    refine ⟨kept.sends.ge, fun _ _ _ loads => ?_, ?_⟩
    · exact Bool.noConfusion (kept.loading.symm.trans loads)
    · exact List.forall_mem_append.mpr ⟨silent_changeState _ _, by simp [Item.send]⟩
  · exact ⟨Nat.le_refl _, fun _ _ _ loads => Bool.noConfusion loads, by simp [Item.send]⟩

theorem later_didReceiveData (s : XMLHttpRequest) (nonempty : Bool) :
    Later s (s.didReceiveData nonempty) := by
  unfold didReceiveData
  split
  · exact .kept ⟨rfl, rfl, rfl, rfl⟩ (List.forall_mem_nil _)
  split
  · refine .kept (kept_changeState s .headersReceived) ?_
    exact List.forall_mem_append.mpr ⟨silent_changeState _ _, by simp [Item.send]⟩
  · exact .kept ⟨rfl, rfl, rfl, rfl⟩ (by simp [Item.send])

/-- A failure brings the end of the send whose load is over. -/
theorem named_didFail (orderly : Orderly ⟨s, items⟩) (named : Named ⟨s, items⟩)
    (cancellation : Bool) :
    Named ⟨(s.didFail s.loader cancellation true).1,
      (s.didFail s.loader cancellation true).2 ++ items⟩ := by
  have failed := kept_didFail (s := s) s.loader cancellation true
  have beyond : (s.didFail s.loader cancellation true).1.loading = false :=
    failed.loading.trans (Bool.and_false _)
  intro item member id found
  refine ⟨?_, fun loads => Bool.noConfusion (beyond.symm.trans loads.2)⟩
  change id < (s.didFail s.loader cancellation true).1.sends
  rw [failed.sends]
  obtain new | old := List.mem_append.mp member
  · apply Nat.lt_of_succ_le
    apply Nat.le_of_eq
    apply orderly.latest
    change s.loader = some id
    by_contra other
    have silent : ∀ item ∈ (s.didFail s.loader cancellation true).2, Item.send item ≠ some id := by
      have changed := silent_changeState { s with
        requestEntityBody := false
        error := true
        didTellLoaderAboutRequest := false
        loading := s.loading && !true } .done
      unfold didFail
      dsimp only
      split
      · exact List.forall_mem_nil _
      split
      · exact List.forall_mem_append.mpr
          ⟨fun item member same => (nomatch (changed item member).symm.trans same),
            by simpa [Item.send] using other⟩
      · exact List.forall_mem_append.mpr
          ⟨fun item member same => (nomatch (changed item member).symm.trans same),
            by simpa [Item.send] using other⟩
    exact silent item new found
  · exact (named item old id found).1

theorem named_call {now : Agenda XMLHttpRequest Item} (orderly : Orderly now) (named : Named now)
    (clean : Clean now event) (ready : ∀ item ∈ now.items.head?, waits item = true)
    (called : now.state.call event = some next) : Named ⟨next.1, next.2 ++ now.items⟩ := by
  obtain ⟨failure, redirect⟩ := clean_failure ready
  unfold call at called
  split at called
  · cases called
    exact named.later (later_openCall _ _)
  · cases called
    exact named.later (.kept ⟨rfl, rfl, rfl, rfl⟩ (List.forall_mem_nil _))
  · cases called
    apply named.later
    unfold send
    split
    · exact .kept ⟨rfl, rfl, rfl, rfl⟩ (List.forall_mem_nil _)
    · exact .kept ⟨rfl, rfl, rfl, rfl⟩ (by simp [Item.send])
  · cases called
    exact named.later (later_abort _)
  · split at called
    · cases called
      refine named.later (.kept ⟨rfl, rfl, rfl, rfl⟩ ?_)
      unfold didSendData
      split
      · refine List.forall_mem_append.mpr ⟨?_, by simp [Item.send]⟩
        split <;> simp [Item.send]
      · exact List.forall_mem_nil _
    · cases called
  · split at called
    · cases called
      exact named.later (later_didReceiveData _ _)
    · cases called
  · split at called
    · cases called
      exact named.later (later_didFinishLoading _)
    · cases called
  · rename_i cancellation beyond
    split at called
    · rename_i active
      cases called
      cases beyond with
      | true => exact named_didFail orderly named cancellation
      | false =>
        have inactive := (failure cancellation false).mp clean rfl
        exact absurd (inactive.symm.trans active) Bool.false_ne_true
    · cases called
  · split at called
    · rename_i active
      exact absurd ((redirect.mp clean).symm.trans active) Bool.false_ne_true
    · cases called
  · cases called

/-- A clean event keeps the order. -/
theorem orderly_step {now : Agenda XMLHttpRequest Item} (orderly : Orderly now ∧ Named now)
    (clean : Clean now event) :
    Orderly (machine.step now event) ∧ Named (machine.step now event) := by
  apply Reentrant.step_keeps (fun s items => Orderly ⟨s, items⟩ ∧ Named ⟨s, items⟩) _ _ now event
    orderly clean
  · rintro s item rest event next ⟨orderly, named⟩ clean turned
    have below : Named ⟨s, rest⟩ := fun item member => named item (List.mem_cons_of_mem _ member)
    exact ⟨orderly_turn orderly named clean turned, below.later (later_turn turned)⟩
  · rintro now event next ⟨orderly, named⟩ clean ready called
    exact ⟨orderly_call orderly clean ready called, named_call orderly named clean ready called⟩

/-- A loader that is lost while it loads is not survived. -/
theorem inactive_of_once (endings : s'.endings = s.lose.endings) (once : s'.EndedOnce) :
    s.active = false := by
  by_contra active
  have active := Bool.not_eq_false _ ▸ active
  obtain ⟨⟨id, loader⟩, -⟩ := active_iff.mp active
  have now : s'.endings id = s.endings id ++ [.lost] := by
    rw [endings, lose, if_pos active, mem_ended, if_pos loader]
  obtain none_ | ⟨how, single, proper⟩ := once id
  · rw [now] at none_
    exact absurd none_ (List.append_ne_nil_of_right_ne_nil _ (List.cons_ne_nil _ _))
  · rw [now] at single
    have last := (List.append_inj' (single.trans (List.nil_append [how]).symm) rfl).2
    exact proper (List.cons.inj last).1.symm

/-- Only what had not ended may end. -/
theorem open_of_once {id : Nat} {how : Ending} (once : (s.ended (some id) how).EndedOnce) :
    s.endings id = [] := by
  have now := @mem_ended s (some id) how id
  rw [if_pos rfl] at now
  obtain none_ | ⟨_, single, -⟩ := once id
  · rw [now] at none_
    exact (List.append_eq_nil_iff.mp none_).1
  · rw [now] at single
    exact (List.append_inj' (single.trans (List.nil_append _).symm) rfl).1

theorem error_genericError (s : XMLHttpRequest) : s.genericError.1.error = true := by
  unfold genericError changeState
  split <;> rfl

/-- A failure while the load goes on leaves an active loader in error. -/
theorem inactive_of_didFail {send : Option Nat} {cancellation : Bool} (orderly : Orderly ⟨s, items⟩)
    (opened : (s.didFail send cancellation false).1.Open) : s.active = false := by
  by_contra active
  have active := Bool.not_eq_false _ ▸ active
  have same : s.error = false := (orderly.opened active).2
  have failed := kept_didFail (s := s) send cancellation false
  have still : (s.didFail send cancellation false).1.active = true := by
    rw [failed.active, XMLHttpRequest.active, Bool.not_false, Bool.and_true]
    exact active
  have error : (s.didFail send cancellation false).1.error = true := by
    simp only [didFail, same, Bool.false_eq_true, if_false]
    split <;> exact error_genericError _
  exact Bool.noConfusion (error.symm.trans (opened still).2)

theorem inactive_of_enter_didFail {now : Agenda XMLHttpRequest Item} {cancellation : Bool}
    (orderly : Orderly now) (survives : Survives (machine.enter now (.didFail cancellation false))) :
    now.state.active = false := by
  by_contra active
  have active := Bool.not_eq_false _ ▸ active
  have called : machine.call now.state (.didFail cancellation false) =
      some (now.state.didFail now.state.loader cancellation false) := if_pos active
  have opened := survives.opened
  simp only [Reentrant.enter, called] at opened
  exact Bool.noConfusion ((inactive_of_didFail orderly opened).symm.trans active)

theorem inactive_of_enter_didFailRedirectCheck {now : Agenda XMLHttpRequest Item}
    (survives : Survives (machine.enter now .didFailRedirectCheck)) : now.state.active = false := by
  by_contra active
  have active := Bool.not_eq_false _ ▸ active
  have called : machine.call now.state .didFailRedirectCheck =
      some (now.state.networkError now.state.loader) := if_pos active
  have opened := survives.opened
  simp only [Reentrant.enter, called] at opened
  have still : now.state.genericError.1.active = true :=
    (kept_genericError now.state).active.trans active
  exact Bool.noConfusion ((error_genericError now.state).symm.trans (opened still).2)

/-- What is survived is clean. -/
theorem clean_of_survives {now : Agenda XMLHttpRequest Item} (orderly : Orderly now)
    (survives : Survives (machine.step now event)) : Clean now event := by
  obtain ⟨s, items⟩ := now
  unfold Clean
  dsimp only
  split
  · have inactive : s.active = false := inactive_of_once rfl survives.once
    obtain ⟨opened, error⟩ : (s.readyState = .opened ∨ s.readyState = .headersReceived ∨
        s.readyState = .loading) ∧ s.error = false := by
      have opened : (s.created true).Open := survives.opened
      simp only [created, lose_of_inactive inactive] at opened
      exact opened rfl
    exact ⟨inactive, error, opened⟩
  · exact inactive_of_once rfl survives.once
  · exact inactive_of_didFail orderly survives.opened
  · have kept := kept_changeState { s.lose with loader := none, loading := false } .done
    exact inactive_of_once kept.endings survives.once
  · exact inactive_of_once rfl survives.once
  · by_contra active
    obtain ⟨state, -⟩ := survives.opened (Bool.not_eq_false _ ▸ active)
    obtain found | found | found := state <;> cases found
  · intro done error id found
    have once : s.readyStateChanged.1.EndedOnce := survives.once
    rw [readyStateChanged, if_pos ⟨done, by rw [error]; rfl⟩, found] at once
    exact open_of_once once
  · exact open_of_once survives.once
  · exact open_of_once survives.once
  · rintro rfl
    exact inactive_of_enter_didFail orderly survives
  · rintro rfl
    exact inactive_of_enter_didFail orderly survives
  · exact inactive_of_enter_didFailRedirectCheck survives
  · exact inactive_of_enter_didFailRedirectCheck survives
  · trivial

/-- A request survives a run exactly when every event of the run is clean. -/
theorem survives_iff_clean (events : List Event) :
    Along machine.step (fun now event => Survives (machine.step now event)) ⟨{}, []⟩ events ↔
      Along machine.step Clean ⟨{}, []⟩ events := by
  have start : Orderly ⟨{}, []⟩ ∧ Named ⟨{}, []⟩ := by
    constructor
    · refine ⟨open_of_inactive rfl, nofun, fun _ => .inl rfl, fun _ _ => rfl, nofun, .inl ?_⟩
      exact fun id started => absurd started (Nat.not_lt_zero id)
    · exact fun _ member => absurd member List.not_mem_nil
  apply along_iff (fun now => Orderly now ∧ Named now) _ _ _ _ start
    (along_of_forall (fun _ _ => trivial) _ _)
  · intro now event orderly _
    constructor
    · exact clean_of_survives orderly.1
    · exact fun clean => (orderly_step orderly clean).1.survives
  · exact fun now event orderly _ survives =>
      orderly_step orderly (clean_of_survives orderly.1 survives)

end

/-- A handler of the error event of a request sends it again. -/
def sendFromErrorHandler : List Event :=
  [.openCall true, .returned, .proceed, .send false, .returned, .proceed, .requested true,
    .created true, .didFail false true, .returned, .proceed, .proceed, .openCall true, .returned,
    .proceed, .send false, .returned, .proceed, .requested true, .created true, .returned, .proceed]

/-- When the handler has returned the new request is cancelled. -/
theorem not_survives_sendFromErrorHandler :
    ¬∀ events, Along machine.step (fun now event => Survives (machine.step now event)) ⟨{}, []⟩
      events := by
  intro all
  have survives := ((along_append _ _ sendFromErrorHandler [.proceed]).mp (all _)).2.1
  have lost : (machine.step (after machine.step ⟨{}, []⟩ sendFromErrorHandler)
      .proceed).state.endings 1 = [.lost] := by decide
  obtain none_ | ⟨how, single, proper⟩ := survives.once 1
  · exact absurd (lost.symm.trans none_) (List.cons_ne_nil _ _)
  · exact proper (List.cons.inj (single.symm.trans lost)).1

end XMLHttpRequest

end WkcBrowser.Xml
