import WkcBrowser.Xml.Endings

/-! Turns and calls of an `XMLHttpRequest`. Until the end of a send is brought its handlers can do nothing
but open the request again or abort it; all other calls are refused. -/

namespace WkcBrowser.Xml

open Lib

namespace XMLHttpRequest

section
variable {s s' : XMLHttpRequest} {items items' : List Item}
variable {item : Item} {rest : List Item} {event : Event} {next : XMLHttpRequest × List Item}

/-- Once the latest send has ended every send has. -/
theorem accounted_of_latest {id : Nat} {how : Ending} (last : id + 1 = s.sends)
    (others : ∀ other < id, s.endings other ≠ []) : (s.ended (some id) how).Accounted := by
  intro other started none_
  rw [mem_ended] at none_
  change other < s.sends at started
  split at none_
  · exact absurd none_ (List.append_ne_nil_of_right_ne_nil _ (List.cons_ne_nil _ _))
  · rename_i different
    have smaller : other < id := by
      have distinct : other ≠ id := fun same => different (congrArg some same.symm)
      omega
    exact absurd none_ (others other smaller)

theorem latest_of_last {id : Nat} (last : id + 1 = s.sends) : s.latest = some id := by
  rw [latest, ← last, if_neg (Nat.succ_ne_zero id), Nat.add_sub_cancel]

/-- The end of the latest send is brought. -/
theorem orderly_brought (orderly : Orderly ⟨s, items⟩) {id : Nat} {how : Ending}
    (inactive : s.active = false) (last : id + 1 = s.sends) (open_ : s.endings id = [])
    (others : ∀ other < id, s.endings other ≠ []) (proper : how ≠ .lost) :
    Orderly ⟨s.ended (some id) how, items'⟩ := by
  apply orderly.ended _ _ proper (accounted_of_latest last others)
  · intro other same
    rw [← Option.some.inj same]
    exact ⟨by omega, open_⟩
  · rintro other - ⟨loader, loading⟩
    rw [active, loader, loading] at inactive
    cases inactive

/-- The top item goes on while the end of the latest send is pending. -/
theorem orderly_turn_pending (orderly : Orderly ⟨s, item :: rest⟩)
    (pending : Pending ⟨s, item :: rest⟩) (turned : s.turn item event = some next) :
    Orderly ⟨next.1, next.2 ++ rest⟩ := by
  obtain ⟨id, above, top, below, stack, idle, brings, last, open_, others⟩ := pending
  have inactive := inactive_of_brings brings
  change id + 1 = s.sends at last
  change s.endings id = [] at open_
  cases above with
  | nil =>
    obtain ⟨rfl, rfl⟩ := List.cons.inj stack
    cases item <;> try exact brings.elim
    · cases event <;> cases turned
      obtain ⟨none_, error, done⟩ := brings
      rw [readyStateChanged, if_pos ⟨done, by rw [error]; rfl⟩, latest_of_last last]
      refine orderly_brought orderly inactive last open_ others ?_
      exact Ending.noConfusion
    · cases event <;> cases turned
      obtain ⟨rfl, -⟩ := brings
      exact orderly_brought orderly inactive last open_ others Ending.noConfusion
    · cases event <;> cases turned
      obtain ⟨rfl, -⟩ := brings
      exact orderly_brought orderly inactive last open_ others Ending.noConfusion
    · cases event <;> cases turned
      obtain ⟨-, loader, error, state⟩ := brings
      have different : s.readyState ≠ .done := by
        intro done
        simp only [done, reduceCtorEq, or_self] at state
      simp only [finish, lose_of_inactive inactive, changeState, ne_eq, different, not_false_eq_true,
        if_true]
      refine ⟨open_of_inactive rfl, fun _ loads => ?_, orderly.once, orderly.fresh,
        fun _ loads => ?_, .inr ?_⟩
      · cases loads
      · cases loads
      refine ⟨id, [.dispatchEvent .readystatechange false], .readyStateChanged, rest, rfl, ?_,
        ⟨rfl, error, rfl⟩, last, open_, others⟩
      exact List.forall_mem_singleton.mpr trivial
  | cons first above =>
    obtain ⟨rfl, rfl⟩ := List.cons.inj stack
    have further : Pending ⟨s, above ++ top :: below⟩ :=
      ⟨id, above, top, below, rfl, fun other member => idle other (List.mem_cons_of_mem _ member),
        brings, last, open_, others⟩
    have idle := idle item List.mem_cons_self
    cases item <;> try exact idle.elim
    · cases event <;> cases turned
      exact orderly.kept ⟨rfl, rfl, rfl, rfl⟩ orderly.opened (.inr further)
    · cases event <;> cases turned
      unfold readyStateChanged
      split
      · rw [latest_of_last last]
        refine orderly_brought orderly inactive last open_ others ?_
        exact Ending.noConfusion
      · exact orderly.kept ⟨rfl, rfl, rfl, rfl⟩ orderly.opened (.inr further)

theorem orderly_turn (orderly : Orderly ⟨s, item :: rest⟩) (named : Named ⟨s, item :: rest⟩)
    (clean : Clean ⟨s, item :: rest⟩ event) (turned : s.turn item event = some next) :
    Orderly ⟨next.1, next.2 ++ rest⟩ := by
  obtain accounted | pending := orderly.mode
  · exact orderly_turn_accounted orderly named accounted clean turned
  · exact orderly_turn_pending orderly pending turned

/-- `open` ends what has not ended and leaves no loader. -/
theorem orderly_openCall (orderly : Orderly ⟨s, items⟩) (allowed : Bool) :
    Orderly ⟨(s.openCall allowed).1, items'⟩ := by
  unfold openCall
  dsimp only
  split
  · split
    · have kept := kept_changeState { (s.endAll .openCall).internalAbort with
        readyState := .unsent
        error := false
        uploadComplete := false
        requestEntityBody := false } .opened
      exact orderly.endAll Ending.noConfusion kept.loader kept.sends kept.endings
    · exact orderly.endAll Ending.noConfusion rfl rfl rfl
  · exact orderly.endAll Ending.noConfusion rfl rfl rfl

theorem orderly_abort (orderly : Orderly ⟨s, items⟩) : Orderly ⟨s.abort.1, items'⟩ := by
  unfold abort
  dsimp only
  split
  · exact orderly.endAll Ending.noConfusion rfl rfl rfl
  · have kept := kept_changeState (s.endAll .abortCall).internalAbort .done
    exact orderly.endAll Ending.noConfusion kept.loader kept.sends kept.endings

/-- A send of a request that is not open does nothing. -/
theorem orderly_send (orderly : Orderly ⟨s, items⟩) (entityBody : Bool) :
    Orderly ⟨(s.send entityBody).1, (s.send entityBody).2 ++ items⟩ := by
  unfold send
  split
  · exact orderly
  · rename_i ready
    obtain ⟨opened, none_⟩ := not_or.mp ready
    have inactive : s.active = false := by
      rw [active, Bool.eq_false_iff.mpr none_, Bool.false_and]
    refine orderly.kept ⟨rfl, rfl, rfl, rfl⟩ (open_of_inactive inactive) (.inl ?_)
    obtain accounted | ⟨id, above, item, below, stack, idle, brings, last, open_, others⟩ :=
      orderly.mode
    · exact accounted
    · exfalso
      have state := not_not.mp opened
      cases item <;> try exact brings.elim
      · exact ReadyState.noConfusion (state.symm.trans brings.2.2)
      · exact ReadyState.noConfusion (state.symm.trans brings.2.2.2.2)
      · exact ReadyState.noConfusion (state.symm.trans brings.2.2.2.2)
      · obtain ⟨-, -, -, received | received⟩ := brings
        · exact ReadyState.noConfusion (state.symm.trans received)
        · exact ReadyState.noConfusion (state.symm.trans received)

/-- An active request is accounted for. -/
theorem Orderly.accounted_of_active (orderly : Orderly ⟨s, items⟩) (active : s.active = true) :
    s.Accounted := by
  obtain accounted | ⟨id, above, item, below, stack, idle, brings, -⟩ := orderly.mode
  · exact accounted
  · have inactive : s.active = false := inactive_of_brings brings
    rw [active] at inactive
    cases inactive

theorem active_iff : s.active = true ↔ (∃ id, s.loader = some id) ∧ s.loading = true := by
  rw [active, Bool.and_eq_true, Option.isSome_iff_exists]

/-- The load of the latest send is over, and what it brings lies on the stack. -/
theorem orderly_over (orderly : Orderly ⟨s, items⟩) (active : s.active = true) {id : Nat}
    (loader : s.loader = some id) {above : List Item} (idle : ∀ other ∈ above, Item.Idle other)
    (same : s'.loader = s.loader) (sends : s'.sends = s.sends) (endings : s'.endings = s.endings)
    (beyond : s'.loading = false) (item : Item) (below : List Item) (brings : s'.Brings id item)
    (stack : items' = above ++ item :: below) : Orderly ⟨s', items'⟩ := by
  have accounted := orderly.accounted_of_active active
  obtain ⟨-, loading⟩ := active_iff.mp active
  have last := orderly.latest id loader
  refine ⟨open_of_inactive (inactive_of_brings brings), ?_, ?_, ?_, ?_, .inr ?_⟩
  · intro other _ loads
    rw [beyond] at loads
    cases loads
  · intro other
    rw [endings]
    exact orderly.once other
  · intro other
    rw [endings, sends]
    exact orderly.fresh other
  · intro other
    rw [same, sends]
    exact orderly.latest other
  · refine ⟨id, above, item, below, stack, idle, brings, last.trans sends.symm, ?_, ?_⟩
    · change s'.endings id = []
      rw [endings]
      exact orderly.unended id loader loading
    · intro other earlier none_
      change s'.endings other = [] at none_
      rw [endings] at none_
      change id + 1 = s.sends at last
      have found := (accounted other (by omega) none_).1
      rw [loader] at found
      exact absurd (Option.some.inj found) (by omega)

theorem ne_of_early (early : s.readyState.rank < ReadyState.headersReceived.rank) :
    s.readyState ≠ .headersReceived := by
  intro found
  rw [found] at early
  exact Nat.lt_irrefl _ early

theorem active_of_over (beyond : s.loading = false) : s.active = false := by
  rw [active, beyond, Bool.and_false]

theorem idle_callReadyStateChangeListener :
    ∀ other ∈ callReadyStateChangeListener, Item.Idle other := by
  simp [callReadyStateChangeListener, Item.Idle]

theorem orderly_didFinishLoading (orderly : Orderly ⟨s, items⟩) (active : s.active = true) :
    Orderly ⟨s.didFinishLoading.1, s.didFinishLoading.2 ++ items⟩ := by
  obtain ⟨state, error⟩ := orderly.opened active
  obtain ⟨⟨id, loader⟩, -⟩ := active_iff.mp active
  have same : s.error = false := error
  simp only [didFinishLoading, same, Bool.false_eq_true, if_false]
  split
  · rename_i early
    have different := ne_of_early early
    simp only [changeState, ne_eq, different, not_false_eq_true, if_true]
    exact orderly_over orderly active loader idle_callReadyStateChangeListener rfl rfl rfl rfl
      .finish items ⟨active_of_over rfl, loader, rfl, .inl rfl⟩ (List.append_assoc ..)
  · rename_i late
    have received : s.readyState = .headersReceived ∨ s.readyState = .loading := by
      obtain found | found := state
      · exact absurd (by rw [show s.readyState = .opened from found]; decide) late
      · exact found
    exact orderly_over orderly active loader (List.forall_mem_nil _) rfl rfl rfl rfl .finish items
      ⟨active_of_over rfl, loader, rfl, received⟩ rfl

theorem orderly_didFail (orderly : Orderly ⟨s, items⟩) (active : s.active = true)
    (cancellation : Bool) :
    Orderly ⟨(s.didFail s.loader cancellation true).1,
      (s.didFail s.loader cancellation true).2 ++ items⟩ := by
  obtain ⟨state, error⟩ := orderly.opened active
  obtain ⟨⟨id, loader⟩, -⟩ := active_iff.mp active
  have same : s.error = false := error
  have different : s.readyState ≠ .done := by
    intro found
    simp only [found, reduceCtorEq, or_self] at state
  simp only [didFail, same, Bool.false_eq_true, if_false, Bool.not_true, Bool.and_false]
  split
  · simp only [abortError, genericError, changeState, ne_eq, different, not_false_eq_true, if_true,
      List.append_assoc]
    exact orderly_over orderly active loader idle_callReadyStateChangeListener rfl rfl rfl rfl
      (.abortEvent s.loader) _ ⟨loader, active_of_over rfl, loader, rfl, rfl⟩ rfl
  · simp only [networkError, genericError, changeState, ne_eq, different, not_false_eq_true, if_true,
      List.append_assoc]
    exact orderly_over orderly active loader idle_callReadyStateChangeListener rfl rfl rfl rfl
      (.errorEvent s.loader) _ ⟨loader, active_of_over rfl, loader, rfl, rfl⟩ rfl

theorem orderly_didReceiveData (orderly : Orderly ⟨s, items⟩) (active : s.active = true)
    (nonempty : Bool) :
    Orderly ⟨(s.didReceiveData nonempty).1, (s.didReceiveData nonempty).2 ++ items⟩ := by
  have accounted := orderly.accounted_of_active active
  unfold didReceiveData
  split
  · exact orderly.kept ⟨rfl, rfl, rfl, rfl⟩ orderly.opened (.inl accounted)
  split
  · rename_i early
    have kept := kept_changeState s .headersReceived
    have opened : (s.changeState .headersReceived).1.Open := by
      rw [changeState, if_pos (ne_of_early early)]
      exact fun active => ⟨.inr (.inl rfl), (orderly.opened active).2⟩
    exact orderly.kept kept opened (.inl (kept.accounted accounted))
  · exact orderly.kept ⟨rfl, rfl, rfl, rfl⟩ orderly.opened (.inl accounted)

/-- Where calls are let in a clean event reports no failure of a load that goes on. -/
theorem clean_failure {now : Agenda XMLHttpRequest Item}
    (ready : ∀ item ∈ now.items.head?, waits item = true) :
    (∀ cancellation beyond, Clean now (.didFail cancellation beyond) ↔
      (beyond = false → now.state.active = false)) ∧
    (Clean now .didFailRedirectCheck ↔ now.state.active = false) := by
  obtain ⟨s, items⟩ := now
  cases items with
  | nil => exact ⟨fun _ _ => Iff.rfl, Iff.rfl⟩
  | cons item rest =>
    have waiting := ready item rfl
    cases item <;> first | exact ⟨fun _ _ => Iff.rfl, Iff.rfl⟩ | cases waiting

theorem orderly_call {now : Agenda XMLHttpRequest Item} (orderly : Orderly now)
    (clean : Clean now event) (ready : ∀ item ∈ now.items.head?, waits item = true)
    (called : now.state.call event = some next) : Orderly ⟨next.1, next.2 ++ now.items⟩ := by
  obtain ⟨failure, redirect⟩ := clean_failure ready
  unfold call at called
  split at called
  · cases called
    exact orderly_openCall orderly _
  · cases called
    refine orderly.kept ⟨rfl, rfl, rfl, rfl⟩ orderly.opened (orderly.mode.imp_right ?_)
    rintro ⟨id, above, item, below, stack, idle, brings, rest⟩
    refine ⟨id, above, item, below, stack, idle, ?_, rest⟩
    cases item <;> exact brings
  · cases called
    exact orderly_send orderly _
  · cases called
    exact orderly_abort orderly
  · split at called
    · rename_i active
      cases called
      exact orderly.kept ⟨rfl, rfl, rfl, rfl⟩ orderly.opened (.inl (orderly.accounted_of_active active))
    · cases called
  · split at called
    · rename_i active
      cases called
      exact orderly_didReceiveData orderly active _
    · cases called
  · split at called
    · rename_i active
      cases called
      exact orderly_didFinishLoading orderly active
    · cases called
  · rename_i cancellation beyond
    split at called
    · rename_i active
      cases called
      cases beyond with
      | true => exact orderly_didFail orderly active cancellation
      | false =>
        have inactive := (failure cancellation false).mp clean rfl
        exact absurd (inactive.symm.trans active) Bool.false_ne_true
    · cases called
  · split at called
    · rename_i active
      exact absurd ((redirect.mp clean).symm.trans active) Bool.false_ne_true
    · cases called
  · cases called

end

end XMLHttpRequest

end WkcBrowser.Xml
