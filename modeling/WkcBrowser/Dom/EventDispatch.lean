import WkcBrowser.Dom.ListenerOperations

/-! Every dispatch invokes the listeners that were registered when it began and are not removed before their
turn, unless its index goes past -1 or its event gets another phase. -/

namespace WkcBrowser.Dom

open Lib

variable {V E L : Type} [DecidableEq E] [DecidableEq L]

namespace Firing

/-- The listeners to invoke: of the phase, and not removed before their turn. -/
def due (f : Firing V E L) : List (RegisteredEventListener L) :=
  f.registered.filter fun r => f.phase.admits r && !decide (r ∈ f.removed)

/-- What was invoked and what waits are the listeners to invoke, in their order. -/
def Faithful (f : Firing V E L) : Prop :=
  f.invoked ++ f.waiting.filter f.phase.admits = f.due

/-- The listeners invoked are those to invoke, in their order. -/
def Complete (f : Firing V E L) : Prop := f.invoked = f.due

variable {f : Firing V E L}

omit [DecidableEq E] in
theorem nodup_due (nodup : f.registered.Nodup) : f.due.Nodup := nodup.filter _

omit [DecidableEq E] in
theorem admits_of_mem_due {r : RegisteredEventListener L} (member : r ∈ f.due) :
    f.phase.admits r = true := by
  have both := (List.mem_filter.mp member).2
  rw [Bool.and_eq_true] at both
  exact both.1

omit [DecidableEq E] in
/-- A listener that waits was not invoked. -/
theorem Faithful.not_invoked (faithful : f.Faithful) (nodup : f.registered.Nodup)
    {r : RegisteredEventListener L} (waits : r ∈ f.waiting) : r ∉ f.invoked := by
  intro invoked
  have due : r ∈ f.due := by
    rw [← faithful]
    exact List.mem_append_left _ invoked
  have both := nodup_due nodup
  rw [← faithful] at both
  exact (List.nodup_append.mp both).2.2 r invoked r
    (List.mem_filter.mpr ⟨waits, admits_of_mem_due due⟩) rfl

omit [DecidableEq E] in
/-- More removed listeners are left out of those to invoke. -/
theorem due_removed (more : List (RegisteredEventListener L)) :
    ({ f with removed := more ++ f.removed } : Firing V E L).due =
      f.due.filter fun r => !decide (r ∈ more) := by
  unfold due
  rw [List.filter_filter]
  refine List.filter_congr fun r _ => ?_
  dsimp only
  by_cases inside : r ∈ more <;> simp [inside]

theorem Faithful.forget (faithful : f.Faithful) (nodup : f.registered.Nodup) (eventType : E)
    (registered : RegisteredEventListener L) : (f.forget eventType registered).Faithful := by
  unfold Firing.forget
  by_cases both : eventType = f.eventType ∧ registered ∈ f.waiting
  · rw [if_pos both]
    have absent := faithful.not_invoked nodup both.2
    have once := nodup_due nodup
    have removed := due_removed (f := f) [registered]
    unfold Faithful at *
    rw [List.singleton_append] at removed
    change f.invoked ++ (f.waiting.erase registered).filter f.phase.admits =
      ({ f with removed := registered :: f.removed } : Firing V E L).due
    rw [← faithful] at once
    have kept : f.invoked.filter (fun r => !decide (r ∈ [registered])) = f.invoked := by
      refine List.filter_eq_self.mpr fun r invoked => ?_
      have different : r ≠ registered := fun same => absent (same ▸ invoked)
      simp [different]
    have erased : (f.waiting.filter f.phase.admits).filter (fun r => !decide (r ∈ [registered])) =
        (f.waiting.erase registered).filter f.phase.admits := by
      rw [← List.erase_filter, (List.nodup_append.mp once).2.1.erase_eq_filter]
      refine List.filter_congr fun r _ => ?_
      by_cases same : r = registered <;> simp [same]
    rw [removed, ← faithful, List.filter_append, kept, erased]
  · rw [if_neg both]
    exact faithful

theorem notify_due (eventType : E) (index : Nat) :
    (f.notify eventType index).Faithful ↔ f.Faithful := by
  unfold Firing.notify
  split_ifs <;> simp only [Faithful, due]

theorem registered_notify (eventType : E) (registered : RegisteredEventListener L) (index : Nat) :
    ((f.forget eventType registered).notify eventType index).registered = f.registered := by
  unfold Firing.notify Firing.forget
  split_ifs <;> rfl

omit [DecidableEq E] in
theorem Faithful.clear (faithful : f.Faithful) (nodup : f.registered.Nodup) : f.clear.Faithful := by
  have removed := due_removed (f := f) f.waiting
  have kept : f.invoked.filter (fun r => !decide (r ∈ f.waiting)) = f.invoked := by
    refine List.filter_eq_self.mpr fun r invoked => ?_
    have absent : r ∉ f.waiting := fun waits => faithful.not_invoked nodup waits invoked
    simp [absent]
  have nobody : (f.waiting.filter f.phase.admits).filter (fun r => !decide (r ∈ f.waiting)) = [] := by
    refine List.filter_eq_nil_iff.mpr fun r member => ?_
    simp [List.mem_of_mem_filter member]
  change f.invoked ++ [] = ({ f with removed := f.waiting ++ f.removed } : Firing V E L).due
  rw [removed, ← faithful, List.filter_append, kept, nobody]

omit [DecidableEq E] in
/-- When nobody of the phase waits any more, all are invoked. -/
theorem Faithful.complete_iff (faithful : f.Faithful) :
    f.Complete ↔ ∀ r ∈ f.waiting, f.phase.admits r = false := by
  have parts : f.Complete ↔ f.waiting.filter f.phase.admits = [] := by
    unfold Complete Faithful at *
    constructor
    · intro all
      rw [← faithful] at all
      exact List.self_eq_append_right.mp all
    · intro nobody
      rw [nobody, List.append_nil] at faithful
      exact faithful
  rw [parts, List.filter_eq_nil_iff]
  simp only [Bool.not_eq_true]

end Firing

namespace Firing

variable {f : Firing V E L} {r : RegisteredEventListener L}
  {waiting : List (RegisteredEventListener L)}

omit [DecidableEq E] in
/-- A listener is rightly invoked when it is of the phase at the start. -/
theorem Faithful.invoke_iff (faithful : f.Faithful) (waits : f.waiting = r :: waiting) :
    f.invoked ++ [r] ++ waiting.filter f.phase.admits = f.due ↔ f.phase.admits r = true := by
  unfold Faithful at faithful
  rw [← faithful, waits]
  cases admitted : f.phase.admits r with
  | true =>
    rw [List.filter_cons_of_pos admitted, List.append_assoc]
    exact iff_of_true rfl rfl
  | false =>
    rw [List.filter_cons_of_neg (by simp [admitted])]
    refine iff_of_false (fun same => ?_) (by decide)
    have lengths := congrArg List.length same
    simp only [List.length_append, List.length_singleton] at lengths
    omega

omit [DecidableEq E] in
/-- A listener is rightly left out when it is not of the phase at the start. -/
theorem Faithful.skip_iff (faithful : f.Faithful) (waits : f.waiting = r :: waiting) :
    f.invoked ++ waiting.filter f.phase.admits = f.due ↔ f.phase.admits r = false := by
  unfold Faithful at faithful
  rw [← faithful, waits]
  cases admitted : f.phase.admits r with
  | true =>
    rw [List.filter_cons_of_pos admitted]
    refine iff_of_false (fun same => ?_) (by decide)
    have lengths := congrArg List.length same
    simp only [List.length_append, List.length_cons] at lengths
    omega
  | false =>
    rw [List.filter_cons_of_neg (by simp [admitted])]
    exact iff_of_true rfl rfl

end Firing

namespace EventTarget

/-- No index was beyond its vector, and every dispatch does what it should. -/
structure Sound (t : EventTarget V E L) : Prop where
  inside : t.overrun = false
  firing : ∀ f ∈ t.firingEventIterators, f.Faithful
  finished : ∀ f ∈ t.finished, f.Complete

/-- What is known of a dispatch that is in progress. -/
structure Running (t : EventTarget V E L) (item : FiringItem) (f : Firing V E L) : Prop where
  placed : Placed t item f
  nodup : f.registered.Nodup

/-- Only the innermost dispatch is in its loop; the others wait for a listener. -/
structure Nested (now : Agenda (EventTarget V E L) FiringItem) : Prop where
  vectors : now.state.Vectors
  running : List.Forall₂ (Running now.state) now.items now.state.firingEventIterators
  outer : ∀ item ∈ now.items.tail, item = .handleEvent

/-- What an event does not do: to show another phase of an event to a listener than at the start, or to
end a loop whose index went past -1 while a listener of the phase is below the end. -/
def Straight (now : Agenda (EventTarget V E L) FiringItem) : ListenerEvent V E L → Bool
  | .resume =>
    match now.items, now.state.firingEventIterators with
    | .loop :: _, f :: _ =>
      if f.iterator < f.end_ then
        ((now.state.vectors f.entry).bind (·[f.iterator]?)).all fun r =>
          (now.state.eventPhase f.event).admits r = f.phase.admits r
      else f.iterator = f.end_ ||
        (((now.state.vectors f.entry).getD []).take f.end_).all fun r => !f.phase.admits r
    | _, _ => true
  | .call _ => true

variable {t : EventTarget V E L} {f : Firing V E L} {outer : List (Firing V E L)}

omit [DecidableEq L] in
/-- While the index is below the end, it is that of the first listener that waits. -/
theorem next_listener (placed : Placed t .loop f) (within : f.iterator < f.end_) :
    ∃ r waiting passed later, f.waiting = r :: waiting ∧ f.iterator = passed.length ∧
      f.end_ = passed.length + f.waiting.length ∧
      t.entry f.eventType = some (f.entry, passed ++ f.waiting ++ later) ∧
      (t.vectors f.entry).bind (·[f.iterator]?) = some r := by
  obtain ⟨-, ⟨none_left, -⟩ | ⟨passed, later, found, length, position⟩⟩ := placed
  · omega
  · have limit_lt : vectorLimit < 2 ^ 31 := by decide
    have here : f.iterator = passed.length := by
      obtain here | ⟨-, far⟩ := position
      · exact here
      · change _ ≤ f.iterator at far
        omega
    cases waits : f.waiting with
    | nil =>
      rw [waits, List.length_nil] at length
      omega
    | cons r waiting =>
      refine ⟨r, waiting, passed, later, rfl, here, waits ▸ length, waits ▸ found, ?_⟩
      rw [(entry_eq_some.mp found).2, waits, here]
      simp

omit [DecidableEq L] in
/-- A listener that has its turn is passed. -/
theorem placed_passed {t' : EventTarget V E L} {item : FiringItem} (placed : Placed t .loop f)
    (within : f.iterator < f.end_) {r : RegisteredEventListener L}
    {waiting : List (RegisteredEventListener L)} (waits : f.waiting = r :: waiting)
    {g : Firing V E L} (small : g.iterator < 2 ^ 32) (eventType : g.eventType = f.eventType)
    (entry : g.entry = f.entry) (end_ : g.end_ = f.end_) (rest : g.waiting = waiting)
    (cursor : g.cursor item = f.iterator + 1) (same : t'.entry f.eventType = t.entry f.eventType) :
    Placed t' item g := by
  obtain ⟨r', waiting', passed, later, waits', here, length, found, -⟩ := next_listener placed within
  obtain ⟨rfl, rfl⟩ := List.cons.inj (waits'.symm.trans waits)
  rw [waits] at length found
  refine ⟨small, .inr ⟨passed ++ [r'], later, ?_, ?_, .inl ?_⟩⟩
  · rw [eventType, entry, rest, same, found]
    simp
  · rw [end_, rest, length, List.length_append, List.length_singleton, List.length_cons]
    omega
  · rw [cursor, here, List.length_append, List.length_singleton]

/-- When the loop ends, somebody waits only if the index went past -1. -/
theorem complete_iff (running : Running t .loop f) (faithful : f.Faithful)
    (beyond : ¬f.iterator < f.end_) :
    f.Complete ↔ (f.iterator = f.end_ || (((t.vectors f.entry).getD []).take f.end_).all
      fun r => !f.phase.admits r) = true := by
  rw [faithful.complete_iff, Bool.or_eq_true, decide_eq_true_iff, List.all_eq_true]
  simp only [Bool.not_eq_true']
  obtain ⟨-, ⟨none_left, nobody⟩ | ⟨passed, later, found, length, position⟩⟩ := running.placed
  · rw [none_left, nobody]
    simp
  · rw [(entry_eq_some.mp found).2, Option.getD_some]
    obtain here | ⟨rfl, far⟩ := position
    · change f.iterator = _ at here
      have nobody : f.waiting = [] := List.eq_nil_of_length_eq_zero (by omega)
      rw [nobody]
      exact iff_of_true (by simp) (.inl (by rw [nobody, List.length_nil] at length; omega))
    · change _ ≤ f.iterator at far
      have limit_lt : vectorLimit < 2 ^ 31 := by decide
      rw [List.nil_append, length, List.length_nil, Nat.zero_add, List.take_left]
      constructor
      · exact .inr
      · rintro (same | all)
        · omega
        · exact all

/-- The loop looks at one listener or ends. -/
theorem sound_loop_iff (sound : t.Sound) (frames : t.firingEventIterators = f :: outer)
    (running : Running t .loop f) {items : List FiringItem} :
    (t.loop f outer).1.Sound ↔
      Straight ⟨t, .loop :: items⟩ (.resume : ListenerEvent V E L) = true := by
  have faithful : f.Faithful := sound.firing f (by rw [frames]; exact List.mem_cons_self)
  have others : ∀ g ∈ outer, g.Faithful := fun g member =>
    sound.firing g (by rw [frames]; exact List.mem_cons_of_mem f member)
  unfold Straight loop
  dsimp only
  rw [frames]
  dsimp only
  by_cases within : f.iterator < f.end_
  · obtain ⟨r, waiting, passed, later, waits, here, length, found, next⟩ :=
      next_listener running.placed within
    rw [if_pos within, if_pos within, next, Option.all_some, decide_eq_true_iff]
    dsimp only
    cases admitted : (t.eventPhase f.event).admits r with
    | true =>
      rw [if_pos rfl]
      constructor
      · intro sound'
        have turned := sound'.firing _ List.mem_cons_self
        unfold Firing.Faithful at turned
        dsimp only at turned
        rw [waits, List.erase_cons_head] at turned
        exact ((faithful.invoke_iff waits).mp turned).symm
      · intro same
        refine ⟨sound.inside, fun g member => ?_, sound.finished⟩
        obtain rfl | member := List.mem_cons.mp member
        · unfold Firing.Faithful
          dsimp only
          rw [waits, List.erase_cons_head]
          exact (faithful.invoke_iff waits).mpr same.symm
        · exact others g member
    | false =>
      rw [if_neg Bool.false_ne_true]
      constructor
      · intro sound'
        have turned := sound'.firing _ List.mem_cons_self
        unfold Firing.Faithful at turned
        dsimp only at turned
        rw [waits, List.erase_cons_head] at turned
        exact ((faithful.skip_iff waits).mp turned).symm
      · intro same
        refine ⟨sound.inside, fun g member => ?_, sound.finished⟩
        obtain rfl | member := List.mem_cons.mp member
        · unfold Firing.Faithful
          dsimp only
          rw [waits, List.erase_cons_head]
          exact (faithful.skip_iff waits).mpr same.symm
        · exact others g member
  · rw [if_neg within, if_neg within, ← complete_iff running faithful within]
    constructor
    · exact fun sound' => sound'.finished f List.mem_cons_self
    · intro complete
      refine ⟨sound.inside, others, fun g member => ?_⟩
      obtain rfl | member := List.mem_cons.mp member
      · exact complete
      · exact sound.finished g member

variable {items : List FiringItem} {item : FiringItem}

omit [DecidableEq L] in
theorem running_congr {t' : EventTarget V E L}
    (same : ∀ eventType, t'.entry eventType = t.entry eventType) {frames : List (Firing V E L)}
    (running : List.Forall₂ (Running t) items frames) :
    List.Forall₂ (Running t') items frames :=
  running.imp fun _ g one => ⟨one.placed.congr (same g.eventType), one.nodup⟩

omit [DecidableEq L] in
/-- The innermost dispatch is the one of the item on top. -/
theorem nested_cases (nested : Nested ⟨t, item :: items⟩) : ∃ f outer,
    t.firingEventIterators = f :: outer ∧ Running t item f ∧
      List.Forall₂ (Running t) items outer ∧ ∀ item ∈ items, item = .handleEvent := by
  obtain ⟨-, running, inner⟩ := nested
  change List.Forall₂ (Running t) (item :: items) t.firingEventIterators at running
  cases frames : t.firingEventIterators with
  | nil =>
    rw [frames] at running
    cases running
  | cons f outer =>
    rw [frames] at running
    obtain ⟨head, rest⟩ := List.forall₂_cons.mp running
    exact ⟨f, outer, rfl, head, rest, inner⟩

theorem nested_loop (nested : Nested ⟨t, .loop :: items⟩) :
    Nested ⟨(t.resume .loop).1, (t.resume .loop).2 ++ items⟩ := by
  obtain ⟨f, outer, frames, running, rest, inner⟩ := nested_cases nested
  have vectors := nested.vectors
  have tail : ∀ item ∈ items.tail, item = FiringItem.handleEvent :=
    fun item member => inner item (List.mem_of_mem_tail member)
  unfold resume
  rw [frames]
  dsimp only
  unfold loop
  by_cases within : f.iterator < f.end_
  · obtain ⟨r, waiting, passed, later, waits, here, length, found, next⟩ :=
      next_listener running.placed within
    have short : f.end_ ≤ vectorLimit := by
      obtain ⟨listeners, present, -, limit⟩ :=
        vectors.present _ _ (entry_eq_some.mp found).1
      cases present.symm.trans (entry_eq_some.mp found).2
      rw [List.length_append, List.length_append] at limit
      omega
    have limit_lt : vectorLimit < 2 ^ 31 := by decide
    have one : increment f.iterator = f.iterator + 1 := by
      unfold increment
      omega
    rw [if_pos within, next]
    dsimp only
    rw [waits, List.erase_cons_head]
    split_ifs
    · refine ⟨⟨vectors.created, vectors.present, vectors.apart⟩, .cons ⟨?_, running.nodup⟩
        (running_congr (t := t) (fun _ => by rfl) rest), inner⟩
      exact placed_passed running.placed within waits running.placed.small rfl rfl rfl rfl one rfl
    · refine ⟨⟨vectors.created, vectors.present, vectors.apart⟩, .cons ⟨?_, running.nodup⟩
        (running_congr (t := t) (fun _ => by rfl) rest), inner⟩
      exact placed_passed running.placed within waits (increment_lt _) rfl rfl rfl rfl one rfl
  · rw [if_neg within]
    exact ⟨⟨vectors.created, vectors.present, vectors.apart⟩,
      running_congr (t := t) (fun _ => by rfl) rest, tail⟩

/-- A listener that has handled the event is left behind. -/
theorem handled_spec (nested : Nested ⟨t, .handleEvent :: items⟩) :
    Nested ⟨(t.resume .handleEvent).1, (t.resume .handleEvent).2 ++ items⟩ ∧
      (t.Sound → (t.resume .handleEvent).1.Sound) := by
  obtain ⟨f, outer, frames, running, rest, inner⟩ := nested_cases nested
  have vectors := nested.vectors
  unfold resume
  rw [frames]
  dsimp only
  unfold handled
  by_cases empty : t.eventListenerMap.keys = []
  · rw [if_pos empty]
    refine ⟨⟨⟨vectors.created, vectors.present, vectors.apart⟩,
      running_congr (t := t) (fun _ => by rfl) rest,
      fun item member => inner item (List.mem_of_mem_tail member)⟩, fun sound => ?_⟩
    have faithful : f.Faithful := sound.firing f (by rw [frames]; exact List.mem_cons_self)
    have nobody : f.waiting = [] := by
      obtain ⟨-, ⟨-, nobody⟩ | ⟨passed, later, found, -⟩⟩ := running.placed
      · exact nobody
      · have there : f.eventType ∈ t.eventListenerMap :=
          AList.lookup_isSome.mp (by rw [(entry_eq_some.mp found).1]; rfl)
        rw [AList.mem_keys, empty] at there
        cases there
    refine ⟨sound.inside, fun g member => sound.firing g ?_, fun g member => ?_⟩
    · rw [frames]
      exact List.mem_cons_of_mem f member
    · obtain rfl | member := List.mem_cons.mp member
      · exact faithful.complete_iff.mpr (by simp [nobody])
      · exact sound.finished g member
  · rw [if_neg empty]
    refine ⟨⟨⟨vectors.created, vectors.present, vectors.apart⟩,
      .cons ⟨⟨increment_lt _, running.placed.stands⟩, running.nodup⟩
        (running_congr (t := t) (fun _ => by rfl) rest), inner⟩, fun sound => ?_⟩
    refine ⟨sound.inside, fun g member => ?_, sound.finished⟩
    obtain rfl | member := List.mem_cons.mp member
    · exact sound.firing f (by rw [frames]; exact List.mem_cons_self)
    · exact sound.firing g (by rw [frames]; exact List.mem_cons_of_mem f member)

/-! The operations that listeners call. -/

/-- Nobody is waiting for a turn while no dispatch is in its loop. -/
def Idle (items : List FiringItem) : Prop := ∀ item ∈ items, item = .handleEvent

theorem add_keeps (nested : Nested ⟨t, items⟩) (idle : Idle items) {eventType : E}
    {registered : RegisteredEventListener L} {t' : EventTarget V E L}
    (added : t.addEventListener eventType registered = some t') :
    Nested ⟨t', items⟩ ∧ (t.Sound → t'.Sound) := by
  obtain ⟨vectors, running, -⟩ := nested
  obtain ⟨vectors', frames, finished, overrun, more⟩ := add_spec vectors added
  refine ⟨⟨vectors', ?_, fun item member => idle item (List.mem_of_mem_tail member)⟩,
    fun sound => ⟨overrun ▸ sound.inside, frames ▸ sound.firing, finished ▸ sound.finished⟩⟩
  dsimp only at running ⊢
  rw [frames]
  exact running.imp fun _ f one => ⟨one.placed.append (more f.eventType), one.nodup⟩

omit [DecidableEq L] in
/-- While nobody is in its loop, every dispatch waits for its listener. -/
theorem forall_waiting {t' : EventTarget V E L} (idle : Idle items) {frames : List (Firing V E L)}
    (running : List.Forall₂ (Running t) items frames) (change : Firing V E L → Firing V E L)
    (each : ∀ f, Running t .handleEvent f → Running t' .handleEvent (change f)) :
    List.Forall₂ (Running t') items (frames.map change) := by
  induction running with
  | nil => exact .nil
  | cons head _ ih =>
    obtain rfl := idle _ List.mem_cons_self
    exact .cons (each _ head) (ih fun item member => idle item (List.mem_cons_of_mem _ member))

omit [DecidableEq L] in
theorem waiting_of_mem (idle : Idle items) {frames : List (Firing V E L)}
    (running : List.Forall₂ (Running t) items frames) {f : Firing V E L} (member : f ∈ frames) :
    Running t .handleEvent f := by
  induction running with
  | nil => cases member
  | cons head _ ih =>
    obtain rfl := idle _ List.mem_cons_self
    obtain rfl | member := List.mem_cons.mp member
    · exact head
    · exact ih (fun item inside => idle item (List.mem_cons_of_mem _ inside)) member

theorem remove_keeps (nested : Nested ⟨t, items⟩) (idle : Idle items) (eventType : E)
    (registered : RegisteredEventListener L) :
    Nested ⟨t.removeEventListener eventType registered, items⟩ ∧
      (t.Sound → (t.removeEventListener eventType registered).Sound) := by
  obtain ⟨vectors, running, -⟩ := nested
  have tail : ∀ item ∈ items.tail, item = FiringItem.handleEvent :=
    fun item member => idle item (List.mem_of_mem_tail member)
  cases found : t.entry eventType with
  | none =>
    have same : t.removeEventListener eventType registered = t := by
      unfold removeEventListener
      rw [found]
    rw [same]
    exact ⟨⟨vectors, running, tail⟩, id⟩
  | some pair =>
    obtain ⟨address, listeners⟩ := pair
    by_cases member : registered ∈ listeners
    · obtain ⟨vectors', rest, others⟩ := remove_vectors vectors found member
      obtain ⟨nodup, limit⟩ := vectors.of_entry found
      have frames : (t.removeEventListener eventType registered).firingEventIterators =
          t.firingEventIterators.map fun f =>
            (f.forget eventType registered).notify eventType (listeners.idxOf registered) := by
        unfold removeEventListener
        rw [found]
        dsimp only
        rw [if_pos member]
        dsimp only
        split_ifs <;> rfl
      have lasting : (t.removeEventListener eventType registered).overrun = t.overrun ∧
          (t.removeEventListener eventType registered).finished = t.finished := by
        unfold removeEventListener
        rw [found]
        dsimp only
        rw [if_pos member]
        split_ifs <;> exact ⟨rfl, rfl⟩
      refine ⟨⟨vectors', ?_, tail⟩, fun sound => ⟨lasting.1.trans sound.inside, ?_,
        lasting.2 ▸ sound.finished⟩⟩
      · dsimp only at running ⊢
        rw [frames]
        refine forall_waiting idle running _ fun f one => ⟨?_, ?_⟩
        · by_cases same : eventType = f.eventType
          · subst same
            exact one.placed.remove found nodup limit member rest
          · rw [notify_other same]
            exact one.placed.congr (others _ (Ne.symm same))
        · rw [Firing.registered_notify]
          exact one.nodup
      · rw [frames]
        intro g inside
        obtain ⟨f, inside', rfl⟩ := List.mem_map.mp inside
        have one := waiting_of_mem idle running inside'
        apply (Firing.notify_due _ _).mpr
        exact (sound.firing f inside').forget one.nodup _ _
    · have same : t.removeEventListener eventType registered = t := by
        unfold removeEventListener
        rw [found]
        exact if_neg member
      rw [same]
      exact ⟨⟨vectors, running, tail⟩, id⟩

omit [DecidableEq L] in
theorem clear_keeps (nested : Nested ⟨t, items⟩) (idle : Idle items) :
    Nested ⟨t.removeAllEventListeners, items⟩ := by
  obtain ⟨vectors, running, -⟩ := nested
  have empty : ∀ eventType, t.removeAllEventListeners.eventListenerMap.lookup eventType = none :=
    fun eventType => AList.lookup_empty eventType
  refine ⟨⟨fun eventType address lookup => ?_, fun eventType address lookup => ?_,
    fun eventType eventType' address lookup => ?_⟩,
    forall_waiting idle running Firing.clear fun f one => ⟨.clear f, one.nodup⟩,
    fun item member => idle item (List.mem_of_mem_tail member)⟩
  all_goals
    rw [empty eventType] at lookup
    cases lookup

theorem clear_sound (nested : Nested ⟨t, items⟩) (idle : Idle items) (sound : t.Sound) :
    t.removeAllEventListeners.Sound := by
  refine ⟨sound.inside, fun g member => ?_, sound.finished⟩
  obtain ⟨f, inside, rfl⟩ := List.mem_map.mp member
  have one := waiting_of_mem idle nested.running inside
  exact (sound.firing f inside).clear one.nodup

/-- A dispatch that begins has passed no listener. -/
theorem fire_keeps (nested : Nested ⟨t, items⟩) (idle : Idle items) (typeOf : V → E) (event : V) :
    Nested ⟨(t.fireEventListeners typeOf event).1,
        (t.fireEventListeners typeOf event).2 ++ items⟩ ∧
      (t.Sound → (t.fireEventListeners typeOf event).1.Sound) := by
  obtain ⟨vectors, running, tail⟩ := nested
  unfold fireEventListeners
  cases found : t.entry (typeOf event) with
  | none => exact ⟨⟨vectors, running, tail⟩, id⟩
  | some pair =>
    obtain ⟨address, listeners⟩ := pair
    obtain ⟨nodup, limit⟩ := vectors.of_entry found
    dsimp only
    refine ⟨⟨⟨vectors.created, vectors.present, vectors.apart⟩, .cons ⟨?_, nodup⟩
      (running_congr (t := t) (fun _ => by rfl) running), idle⟩, fun sound =>
        ⟨sound.inside, fun g member => ?_, sound.finished⟩⟩
    · refine ⟨Nat.two_pow_pos 32, .inr ⟨[], [], ?_, ?_, .inl rfl⟩⟩
      · rw [List.nil_append, List.append_nil]
        exact found
      · exact (Nat.zero_add _).symm
    · obtain rfl | member := List.mem_cons.mp member
      · unfold Firing.Faithful Firing.due
        dsimp only
        rw [List.nil_append]
        exact List.filter_congr fun r _ => by simp
      · exact sound.firing g member

variable [DecidableEq V]

theorem call_keeps (nested : Nested ⟨t, items⟩) (idle : Idle items) (typeOf : V → E)
    (operation : ListenerOperation V E L) {t' : EventTarget V E L} {inner : List FiringItem}
    (called : t.call typeOf operation = some (t', inner)) :
    Nested ⟨t', inner ++ items⟩ ∧ (t.Sound → t'.Sound) := by
  cases operation with
  | addEventListener eventType registered =>
    obtain ⟨added, success, same⟩ := Option.map_eq_some_iff.mp called
    cases same
    exact add_keeps nested idle success
  | removeEventListener eventType registered =>
    cases called
    exact remove_keeps nested idle eventType registered
  | removeAllEventListeners =>
    cases called
    exact ⟨clear_keeps nested idle, clear_sound nested idle⟩
  | setEventPhase event phase =>
    cases called
    obtain ⟨vectors, running, tail⟩ := nested
    exact ⟨⟨⟨vectors.created, vectors.present, vectors.apart⟩,
      running_congr (t := t) (fun _ => by rfl) running, tail⟩,
      fun sound => ⟨sound.inside, sound.firing, sound.finished⟩⟩
  | fireEventListeners event =>
    have kept := fire_keeps nested idle typeOf event
    rw [show t.fireEventListeners typeOf event = (t', inner) from Option.some.inj called] at kept
    exact kept

/-- A call is let in while nobody is in its loop. -/
theorem idle_of_ready {typeOf : V → E} {now : Agenda (EventTarget V E L) FiringItem}
    (nested : Nested now)
    (ready : ∀ item ∈ now.items.head?, (machine (L := L) typeOf).waits item = true) :
    Idle now.items := by
  intro item member
  cases stack : now.items with
  | nil =>
    rw [stack] at member
    cases member
  | cons top rest =>
    rw [stack] at member
    obtain rfl | member := List.mem_cons.mp member
    · exact of_decide_eq_true (ready item (by rw [stack]; rfl))
    · exact nested.outer item (by rw [stack]; exact member)

theorem step_sound_iff (typeOf : V → E) (now : Agenda (EventTarget V E L) FiringItem)
    (event : ListenerEvent V E L) (nested : Nested now) (sound : now.state.Sound) :
    (step typeOf now event).state.Sound ↔ Straight now event = true := by
  cases event with
  | call operation =>
    refine iff_of_true ?_ rfl
    obtain same | ⟨item, rest, next, -, turned, -⟩ | ⟨ready, next, called, same⟩ :=
      @Reentrant.step_cases _ _ _ (machine typeOf) now (.call operation)
    · change ((machine typeOf).step now _).state.Sound
      rw [same]
      exact sound
    · cases turned
    · change ((machine typeOf).step now _).state.Sound
      rw [same]
      exact (call_keeps nested (idle_of_ready nested ready) typeOf operation called).2 sound
  | resume =>
    obtain ⟨t, items⟩ := now
    cases items with
    | nil => exact iff_of_true sound rfl
    | cons item rest =>
      obtain ⟨f, outer, frames, running, -⟩ := nested_cases nested
      cases item with
      | loop =>
        have looped : (step typeOf ⟨t, .loop :: rest⟩ .resume).state = (t.loop f outer).1 := by
          change (t.resume .loop).1 = _
          unfold resume
          rw [frames]
        rw [looped]
        exact sound_loop_iff sound frames running
      | handleEvent => exact iff_of_true ((handled_spec nested).2 sound) rfl

theorem step_nested (typeOf : V → E) (now : Agenda (EventTarget V E L) FiringItem)
    (event : ListenerEvent V E L) (nested : Nested now) : Nested (step typeOf now event) := by
  refine @Reentrant.step_keeps _ _ _ (machine typeOf) (fun t items => Nested ⟨t, items⟩)
    (fun _ _ => True) (fun t item rest event next nested _ turned => ?_)
    (fun now event next nested _ ready called => ?_) now event nested trivial
  · cases event with
    | call => cases turned
    | resume =>
      cases turned
      cases item with
      | loop => exact nested_loop nested
      | handleEvent => exact (handled_spec nested).1
  · cases event with
    | resume => cases called
    | call operation =>
      exact (call_keeps nested (idle_of_ready nested ready) typeOf operation called).1

omit [DecidableEq E] [DecidableEq V] in
theorem sound_start (eventPhase : V → EventPhase) :
    Sound ({ eventPhase := eventPhase } : EventTarget V E L) := by
  refine ⟨rfl, fun f member => ?_, fun f member => ?_⟩ <;> cases member

omit [DecidableEq L] [DecidableEq V] in
theorem nested_start (eventPhase : V → EventPhase) :
    Nested (⟨{ eventPhase := eventPhase }, []⟩ : Agenda (EventTarget V E L) FiringItem) := by
  refine ⟨⟨fun eventType address lookup => ?_, fun eventType address lookup => ?_,
    fun eventType eventType' address lookup => ?_⟩, .nil, fun item member => ?_⟩
  · rw [AList.lookup_empty] at lookup
    cases lookup
  · rw [AList.lookup_empty] at lookup
    cases lookup
  · rw [AList.lookup_empty] at lookup
    cases lookup
  · cases member

/-- In every run of the listeners of a target each dispatch invokes the listeners that it should, with
every index inside its vector, exactly when every step is straight. -/
theorem sound_iff (typeOf : V → E) (eventPhase : V → EventPhase)
    (events : List (ListenerEvent V E L)) :
    Along (step typeOf) (fun now event => (step typeOf now event).state.Sound)
        ⟨{ eventPhase := eventPhase }, []⟩ events ↔
      Along (step typeOf) (fun now event => Straight now event = true)
        ⟨{ eventPhase := eventPhase }, []⟩ events := by
  have admitted : Along (step typeOf) (fun _ _ => True)
      (⟨{ eventPhase := eventPhase }, []⟩ : Agenda (EventTarget V E L) FiringItem) events :=
    along_of_forall (fun _ _ => trivial) _ _
  apply along_iff (fun now => Nested now ∧ now.state.Sound) _ _ _ _
    ⟨nested_start eventPhase, sound_start eventPhase⟩ admitted
  · exact fun now event known _ => step_sound_iff typeOf now event known.1 known.2
  · exact fun now event known _ sound => ⟨step_nested typeOf now event known.1, sound⟩

/-- Three listeners of one type; the first removes itself and then the second one. -/
def removesTwo : List (ListenerEvent Unit Unit (Fin 3)) :=
  [.call (.addEventListener () ⟨0, false⟩), .call (.addEventListener () ⟨1, false⟩),
    .call (.addEventListener () ⟨2, false⟩), .call (.setEventPhase () .atTarget),
    .call (.fireEventListeners ()), .resume, .call (.removeEventListener () ⟨0, false⟩),
    .call (.removeEventListener () ⟨1, false⟩), .resume, .resume]

/-- The third listener is left out. -/
theorem not_sound : ¬∀ events : List (ListenerEvent Unit Unit (Fin 3)),
    Along (step id) (fun now event => (step id now event).state.Sound) ⟨{}, []⟩ events := by
  intro always
  have along := always removesTwo
  have sound := @after_of_along _ _ _ (fun now event => (step id now event).state.Sound)
    (fun now : Agenda (EventTarget Unit Unit (Fin 3)) FiringItem => now.state.Sound)
    (fun _ _ _ next => next) _ _ (sound_start _) along
  have complete : ∀ f ∈ (after (step id) (⟨{}, []⟩ : Agenda (EventTarget Unit Unit (Fin 3)) FiringItem)
      removesTwo).state.finished, f.invoked = f.due := sound.finished
  revert complete
  decide

end EventTarget

end WkcBrowser.Dom
