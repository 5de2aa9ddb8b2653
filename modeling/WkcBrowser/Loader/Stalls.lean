import Mathlib.Data.List.Nodup
import WkcBrowser.Loader.PendingQueues

/-! No pending request stalls as long as what gives back connections serves the queues. The books of the
loader are kept by every event, and with them every queue that is owed a turn keeps an item that comes
to it. -/

namespace WkcBrowser.Requests

open Wtf Lib

namespace Loader

/-- Hosts may lose pending requests, but what files them stays. -/
structure Calm (s s' : Loader) : Prop where
  names : ∀ h, (s'.hosts h).name = (s.hosts h).name
  pending : ∀ h priority, (s'.hosts h).requestsPending priority ≠ [] →
    (s.hosts h).requestsPending priority ≠ []
  mapped : s'.mapped = s.mapped := by rfl
  hostCount : s'.hostCount = s.hostCount := by rfl
  firingTimers : s'.firingTimers = s.firingTimers := by rfl

section
variable {s s' : Loader} {item : Item} {items rest : List Item} {h : Nat} {host : Host}
  {maxRequestsInFlightPerHost : Int}

theorem Calm.refl : Calm s s := ⟨fun _ => rfl, fun _ _ => id, rfl, rfl, rfl⟩

theorem Calm.setHost (name : host.name = (s.hosts h).name)
    (pending : ∀ priority, host.requestsPending priority ≠ [] →
      (s.hosts h).requestsPending priority ≠ []) : Calm s (s.setHost h host) where
  names k := by
    by_cases same : k = h
    · rw [same, setHost_hosts, Function.update_self, name]
    · rw [setHost_hosts, Function.update_of_ne same]
  pending k priority := by
    by_cases same : k = h
    · rw [same, setHost_hosts, Function.update_self]
      exact pending priority
    · rw [setHost_hosts, Function.update_of_ne same]
      exact id

theorem Filed.calm (filed : s.Filed) (calm : Calm s s') : s'.Filed where
  entered k priority waiting := by
    rw [calm.mapped]
    exact filed.entered k priority (calm.pending k priority waiting)
  named := by
    rw [calm.mapped]
    simpa only [calm.names] using filed.named
  nodup := calm.mapped ▸ filed.nodup
  known := by
    rw [calm.mapped, calm.hostCount]
    exact filed.known
  made := calm.hostCount ▸ filed.made

/-- Items that are no passes come and go while the hosts stay entered. -/
theorem Orderly.push (orderly : s.Orderly rest) (filed : s'.Filed)
    (mapped : ∀ h ∈ s.mapped, h ∈ s'.mapped) (firing : s'.firingTimers = s.firingTimers)
    (others : ∀ item ∈ items, item.isPass = false) : s'.Orderly (items ++ rest) where
  toFiled := filed
  passes := by
    have none_ : items.countP Item.isPass = 0 := by
      apply List.countP_eq_zero.mpr
      intro item member
      rw [others item member]
      exact Bool.false_ne_true
    rw [List.countP_append, none_, Nat.zero_add, orderly.passes, firing]
  serves hosts member := by
    obtain new | old := List.mem_append.mp member
    · cases others _ new
    · obtain ⟨nodup, known⟩ := orderly.serves hosts old
      exact ⟨nodup, fun h member => mapped h (known h member)⟩

theorem Orderly.pop (orderly : s.Orderly (item :: rest)) (other : item.isPass = false) :
    s.Orderly rest where
  toFiled := orderly.toFiled
  passes := by
    have count := orderly.passes
    rwa [List.countP_cons_of_neg (by simp [other])] at count
  serves hosts member := orderly.serves hosts (List.mem_cons_of_mem _ member)

theorem Orderly.keep (orderly : s.Orderly rest) (calm : Calm s s')
    (others : ∀ item ∈ items, item.isPass = false) : s'.Orderly (items ++ rest) :=
  orderly.push (orderly.toFiled.calm calm) (fun _ member => calm.mapped ▸ member)
    calm.firingTimers others

theorem calm_release (s : Loader) (h loader : Nat) :
    Calm s (s.release h loader).1 ∧ ∀ item ∈ (s.release h loader).2, item.isPass = false :=
  ⟨.setHost rfl (fun _ => id), by simp [release, Item.isPass]⟩

theorem calm_serveQueue (s : Loader) (h : Nat) (priority : Priority) (lower : List Priority) :
    Calm s (s.serveQueue h priority lower).1 ∧
      ∀ item ∈ (s.serveQueue h priority lower).2, item.isPass = false := by
  unfold serveQueue
  split
  · exact ⟨.refl, by simp [Item.isPass]⟩
  · rename_i waiting
    split
    · exact ⟨.refl, by simp⟩
    · refine ⟨.setHost rfl fun other => ?_, by simp [Item.isPass]⟩
      by_cases same : other = priority
      · rw [same, waiting]
        exact fun _ => List.cons_ne_nil _ _
      · simp only [Host.removeFirst, Function.update_of_ne same]
        exact id

theorem calm_created (s : Loader) (h : Nat) (request : Request) (priorities : List Priority)
    (loader : Bool) : Calm s (s.created h request priorities loader).1 ∧
      ∀ item ∈ (s.created h request priorities loader).2, item.isPass = false := by
  cases loader with
  | false => exact ⟨.refl, by simp [created, Item.isPass]⟩
  | true =>
    have made : Calm s (s.setHost h { s.hosts h with
        requestsLoading := (s.hosts h).requestsLoading ++ [(s.subresourceLoaders, request)] }) :=
      .setHost rfl fun _ => id
    exact ⟨⟨made.names, made.pending, rfl, rfl, rfl⟩, by simp [created, Item.isPass]⟩

theorem calm_cancelHost (s : Loader) (docLoader : Nat) (copied : Bool) (h : Nat) (hosts : List Nat) :
    Calm s (s.cancelHost docLoader copied h hosts).1 ∧
      ∀ item ∈ (s.cancelHost docLoader copied h hosts).2, item.isPass = false := by
  unfold cancelHost
  split
  · refine ⟨.setHost rfl fun priority left none_ => left ?_, by simp [Item.isPass]⟩
    simp only [Host.cancelPendingRequests, none_, List.filter_nil]
  · exact ⟨.refl, by simp [Item.isPass]⟩

theorem calm_cancelLoader (s : Loader) (h loader : Nat) (loaders : List Nat) :
    Calm s (s.cancelLoader h loader loaders).1 ∧
      ∀ item ∈ (s.cancelLoader h loader loaders).2, item.isPass = false := by
  unfold cancelLoader
  split
  · exact ⟨(calm_release s h loader).1, by simp [release, Item.isPass]⟩
  · exact ⟨.refl, by simp [Item.isPass]⟩

/-- Apart from a pass over the hosts nothing that is done changes where they are filed. -/
theorem calm_turn (other : item.isPass = false) {event : Event} {next : Loader × List Item}
    (turned : s.turn item event = some next) :
    Calm s next.1 ∧ ∀ item ∈ next.2, item.isPass = false := by
  unfold turn at turned
  split at turned
  · split at turned
    · cases turned
      exact ⟨.refl, by simp⟩
    · cases turned
      exact ⟨.refl, by simp [Item.isPass]⟩
  · cases turned
    exact ⟨.refl, by simp⟩
  · cases turned
    exact calm_serveQueue ..
  · cases turned
    exact calm_created ..
  · cases other
  · cases other
  · cases other
  · cases turned
    exact ⟨.refl, by simp [Item.isPass]⟩
  · cases turned
    exact ⟨⟨fun _ => rfl, fun _ _ => id, rfl, rfl, rfl⟩, by simp⟩
  · cases turned
    exact calm_cancelHost ..
  · cases turned
    exact ⟨.refl, by simp⟩
  · cases turned
    exact calm_cancelLoader ..
  · cases turned
    exact ⟨.refl, by simp⟩
  · cases turned

/-- A host without requests is taken out, and those still to be served stay entered. -/
theorem orderly_serveHost {hosts : List Nat}
    (orderly : s.Orderly (.serveHosts (h :: hosts) :: rest)) :
    (s.serveHost h hosts).1.Orderly ((s.serveHost h hosts).2 ++ rest) := by
  obtain ⟨nodup, known⟩ := orderly.serves _ List.mem_cons_self
  have further : s.Orderly (.serveHosts hosts :: rest) := by
    refine ⟨orderly.toFiled, orderly.passes, fun others member => ?_⟩
    obtain same | member := List.mem_cons.mp member
    · cases same
      exact ⟨nodup.of_cons, fun k member => known k (List.mem_cons_of_mem _ member)⟩
    · exact orderly.serves others (List.mem_cons_of_mem _ member)
  unfold serveHost
  split
  · have served : ∀ item ∈ [Item.servePendingRequests h .low], item.isPass = false := by
      simp [Item.isPass]
    exact further.keep .refl served
  · rename_i idle
    split
    · exact further
    · have stays : ∀ k ∈ s.mapped, k ≠ h → k ∈ (s.remove (s.hosts h).name).mapped := by
        intro k member different
        apply List.mem_filter.mpr
        refine ⟨member, decide_eq_true fun same => different ?_⟩
        exact orderly.named k member h (known h List.mem_cons_self) same
      have fewer : ∀ k ∈ (s.remove (s.hosts h).name).mapped, k ∈ s.mapped :=
        fun k member => (List.mem_filter.mp member).1
      refine ⟨⟨?_, ?_, orderly.nodup.filter _, ?_, orderly.made⟩, further.passes, ?_⟩
      · intro k priority waiting
        obtain first | member := orderly.entered k priority waiting
        · exact .inl first
        · refine .inr (stays k member ?_)
          rintro rfl
          exact waiting (pending_of_idle (Bool.eq_false_iff.mpr idle) priority)
      · exact fun k member j member' => orderly.named k (fewer k member) j (fewer j member')
      · exact fun k member => orderly.known k (fewer k member)
      · intro others member
        obtain same | member := List.mem_cons.mp member
        · cases same
          refine ⟨nodup.of_cons, fun k later => ?_⟩
          apply stays k (known k (List.mem_cons_of_mem _ later))
          rintro rfl
          exact (List.nodup_cons.mp nodup).1 later
        · -- No other pass goes on.
          have count := orderly.passes
          rw [List.countP_cons_of_pos rfl] at count
          have none_ : rest.countP Item.isPass = 0 := by
            split at count <;> omega
          exact absurd rfl (List.countP_eq_zero.mp none_ _ member)

theorem orderly_turn {event : Event} {next : Loader × List Item}
    (orderly : s.Orderly (item :: rest)) (turned : s.turn item event = some next) :
    next.1.Orderly (next.2 ++ rest) := by
  cases other : item.isPass with
  | false =>
    obtain ⟨calm, others⟩ := calm_turn other turned
    exact (orderly.pop other).keep calm others
  | true =>
    unfold turn at turned
    split at turned
    case h_5 =>
      cases turned
      refine ⟨orderly.toFiled, orderly.passes, fun hosts member => ?_⟩
      obtain same | member := List.mem_cons.mp member
      · cases same
        exact ⟨orderly.nodup, fun _ => id⟩
      · exact orderly.serves hosts (List.mem_cons_of_mem _ member)
    case h_6 =>
      cases turned
      have count := orderly.passes
      rw [List.countP_cons_of_pos rfl] at count
      refine ⟨⟨orderly.entered, orderly.named, orderly.nodup, orderly.known, orderly.made⟩, ?_,
        fun hosts member => orderly.serves hosts (List.mem_cons_of_mem _ member)⟩
      simp only [List.nil_append, Bool.false_eq_true, if_false]
      split at count <;> omega
    case h_7 =>
      cases turned
      exact orderly_serveHost orderly
    case h_14 => cases turned
    all_goals cases other

theorem filed_hostOf (maxRequestsInFlightPerHost : Int) (filed : s.Filed) (name : Text) :
    (s.hostOf maxRequestsInFlightPerHost name).1.Filed ∧
      (∀ h ∈ s.mapped, h ∈ (s.hostOf maxRequestsInFlightPerHost name).1.mapped) ∧
      (s.hostOf maxRequestsInFlightPerHost name).1.firingTimers = s.firingTimers ∧
      (s.hostOf maxRequestsInFlightPerHost name).2 ∈
        (s.hostOf maxRequestsInFlightPerHost name).1.mapped := by
  unfold hostOf
  cases found : s.get name with
  | some h =>
    exact ⟨filed, fun _ => id, rfl, List.mem_of_find?_eq_some found⟩
  | none =>
    have unnamed : ∀ h ∈ s.mapped, (s.hosts h).name ≠ some name := by
      intro h member
      simpa using List.find?_eq_none.mp found h member
    have older : ∀ h ∈ s.mapped, h ≠ s.hostCount := by
      rintro _ member rfl
      exact (filed.known _ member).ne rfl
    refine ⟨⟨?_, ?_, ?_, ?_, Nat.succ_pos _⟩, fun h member => List.mem_append_left _ member, rfl,
      List.mem_append_right _ (List.mem_singleton_self _)⟩
    · intro h priority waiting
      by_cases fresh : h = s.hostCount
      · exact .inr (List.mem_append_right _ (List.mem_singleton.mpr fresh))
      · simp only [setHost_hosts, Function.update_of_ne fresh] at waiting
        exact (filed.entered h priority waiting).imp_right (List.mem_append_left _)
    · intro h member k member' same
      obtain old | new := List.mem_append.mp member
      · obtain old' | new' := List.mem_append.mp member'
        · simp only [setHost_hosts, Function.update_of_ne (older h old),
            Function.update_of_ne (older k old')] at same
          exact filed.named h old k old' same
        · rw [List.mem_singleton.mp new'] at same
          simp only [setHost_hosts, Function.update_of_ne (older h old), Function.update_self] at same
          exact absurd same (unnamed h old)
      · obtain old' | new' := List.mem_append.mp member'
        · rw [List.mem_singleton.mp new] at same
          simp only [setHost_hosts, Function.update_of_ne (older k old'), Function.update_self] at same
          exact absurd same.symm (unnamed k old')
        · rw [List.mem_singleton.mp new, List.mem_singleton.mp new']
    · apply filed.nodup.append (List.nodup_singleton _)
      intro h member new
      exact older h member (List.mem_singleton.mp new)
    · intro h member
      obtain old | new := List.mem_append.mp member
      · exact (filed.known h old).trans (Nat.lt_succ_self _)
      · rw [List.mem_singleton.mp new]
        exact Nat.lt_succ_self _

theorem Filed.addRequest (filed : s.Filed) {request : Request} {priority : Priority}
    (entered : h = 0 ∨ h ∈ s.mapped) :
    (s.setHost h ((s.hosts h).addRequest request priority)).Filed where
  entered k other waiting := by
    by_cases same : k = h
    · exact same ▸ entered
    · simp only [setHost_hosts, Function.update_of_ne same] at waiting
      exact filed.entered k other waiting
  named := by
    have names : ∀ k, (Function.update s.hosts h ((s.hosts h).addRequest request priority) k).name =
        (s.hosts k).name := by
      intro k
      by_cases same : k = h
      · rw [same, Function.update_self, Host.addRequest]
      · rw [Function.update_of_ne same]
    intro k member j member' same
    simp only [setHost_hosts, names] at same
    exact filed.named k member j member' same
  nodup := filed.nodup
  known := filed.known
  made := filed.made

theorem orderly_load {docLoader : Nat} {type : CachedResourceType} {isCacheValidator : Bool}
    {httpHost : Option Text} (orderly : s.Orderly items) :
    (s.load maxRequestsInFlightPerHost docLoader type isCacheValidator httpHost).1.Orderly
      ((s.load maxRequestsInFlightPerHost docLoader type isCacheValidator httpHost).2 ++
        items) := by
  have entered : (s.hostFor maxRequestsInFlightPerHost httpHost).1.Filed ∧
      (∀ h ∈ s.mapped, h ∈ (s.hostFor maxRequestsInFlightPerHost httpHost).1.mapped) ∧
      (s.hostFor maxRequestsInFlightPerHost httpHost).1.firingTimers = s.firingTimers ∧
      ((s.hostFor maxRequestsInFlightPerHost httpHost).2 = 0 ∨
        (s.hostFor maxRequestsInFlightPerHost httpHost).2 ∈
          (s.hostFor maxRequestsInFlightPerHost httpHost).1.mapped) := by
    cases httpHost with
    | none => exact ⟨orderly.toFiled, fun _ => id, rfl, .inl rfl⟩
    | some name =>
      obtain ⟨filed, mapped, firing, member⟩ := filed_hostOf maxRequestsInFlightPerHost orderly.toFiled name
      exact ⟨filed, mapped, firing, .inr member⟩
  unfold load
  generalize s.hostFor maxRequestsInFlightPerHost httpHost = host at entered ⊢
  obtain ⟨filed, mapped, firing, member⟩ := entered
  have added : (host.1.setHost host.2 ((host.1.hosts host.2).addRequest
      ⟨docLoader, isCacheValidator⟩ (determinePriority type))).Filed := filed.addRequest member
  dsimp only
  split
  · exact orderly.push added mapped firing (by simp [Item.isPass])
  · refine orderly.push ?_ mapped firing (by simp)
    exact ⟨added.entered, added.named, added.nodup, added.known, added.made⟩

theorem orderly_requestTimerFired (orderly : s.Orderly items) (idle : s.firingTimers = false) :
    s.requestTimerFired.1.Orderly (s.requestTimerFired.2 ++ items) := by
  unfold requestTimerFired
  dsimp only
  split
  · exact orderly.keep ⟨fun _ => rfl, fun _ _ => id, rfl, rfl, rfl⟩ (by simp)
  · have count := orderly.passes
    rw [idle] at count
    refine ⟨⟨orderly.entered, orderly.named, orderly.nodup, orderly.known, orderly.made⟩, ?_, ?_⟩
    · simp only [List.countP_append, count]
      rfl
    · intro hosts member
      apply orderly.serves hosts
      simpa using member

theorem calm_nonCacheRequestComplete (s : Loader) (name : Text) :
    Calm s (s.nonCacheRequestComplete name) := by
  unfold nonCacheRequestComplete
  split
  · exact .setHost rfl fun _ => id
  · exact .refl

theorem calm_resumePendingRequests (s : Loader) : Calm s s.resumePendingRequests := by
  unfold resumePendingRequests
  dsimp only
  split <;> exact ⟨fun _ => rfl, fun _ _ => id, rfl, rfl, rfl⟩

theorem orderly_nonCacheRequestInFlight (orderly : s.Orderly items) (name : Text) :
    (s.nonCacheRequestInFlight maxRequestsInFlightPerHost name).Orderly items := by
  unfold nonCacheRequestInFlight
  have found := filed_hostOf maxRequestsInFlightPerHost orderly.toFiled name
  generalize s.hostOf maxRequestsInFlightPerHost name = host at found ⊢
  obtain ⟨filed, mapped, firing, -⟩ := found
  have entered : host.1.Orderly ([] ++ items) := orderly.push filed mapped firing (by simp)
  have counted : Calm host.1 (host.1.setHost host.2 { host.1.hosts host.2 with
      nonCachedRequestsInFlight := (host.1.hosts host.2).nonCachedRequestsInFlight + 1 }) :=
    .setHost rfl fun _ => id
  exact entered.keep counted (List.forall_mem_nil _)

theorem orderly_call {event : Event} {next : Loader × List Item} (orderly : s.Orderly items)
    (called : s.call maxRequestsInFlightPerHost event = some next) :
    next.1.Orderly (next.2 ++ items) := by
  have released : ∀ h loader, (s.release h loader).1.Orderly ((s.release h loader).2 ++ items) :=
    fun h loader => orderly.keep (calm_release s h loader).1 (calm_release s h loader).2
  unfold call at called
  split at called
  · cases called
    exact orderly_load orderly
  · cases called
    exact orderly.keep ⟨fun _ => rfl, fun _ _ => id, rfl, rfl, rfl⟩ (by simp)
  · cases called
    exact orderly.keep (calm_resumePendingRequests s) (by simp)
  · split at called
    · rename_i ready
      cases called
      simp only [Bool.and_eq_true, Bool.not_eq_true'] at ready
      exact orderly_requestTimerFired orderly ready.2
    · cases called
  · cases called
    exact orderly.keep .refl (by simp [Item.isPass])
  · obtain ⟨_, _, rfl⟩ := Option.map_eq_some_iff.mp called
    exact released _ _
  · obtain ⟨_, _, rfl⟩ := Option.map_eq_some_iff.mp called
    exact released _ _
  · obtain ⟨request, _, rfl⟩ := Option.map_eq_some_iff.mp called
    unfold didReceiveResponse
    split
    · split
      · exact released _ _
      · exact orderly.keep (.setHost rfl fun _ => id) (by simp [Item.isPass])
    · exact orderly.keep .refl (by simp [Item.isPass])
  · cases called
    exact orderly_nonCacheRequestInFlight orderly _
  · cases called
    exact orderly.keep (calm_nonCacheRequestComplete s _) (by simp)
  · cases called
    exact orderly.keep ⟨fun _ => rfl, fun _ _ => id, rfl, rfl, rfl⟩ (by simp)
  · cases called

end

/-- What holds of a loader at every moment: its books are in order and what is owed is covered. -/
def Sound (now : Agenda Loader Item) : Prop :=
  now.state.Orderly now.items ∧ Reentrant.Covered Owed Item.Covers now

theorem sound_init : Sound ⟨init, []⟩ := by
  have idle : ∀ h priority, ¬(init.hosts h).requestsPending priority ≠ [] := fun _ _ left => left rfl
  refine ⟨⟨⟨?_, ?_, List.nodup_nil, ?_, Nat.one_pos⟩, rfl, ?_⟩, ?_⟩
  · exact fun h priority waiting => absurd waiting (idle h priority)
  · exact fun _ member => absurd member List.not_mem_nil
  · exact fun _ member => absurd member List.not_mem_nil
  · exact fun _ member => absurd member List.not_mem_nil
  · exact fun queue owed => absurd owed.2.2.1 (idle _ _)

theorem sound_step (maxRequestsInFlightPerHost : Int) (now : Agenda Loader Item) (event : Event)
    (sound : Sound now) (clean : Clean now event) :
    Sound ((machine maxRequestsInFlightPerHost).step now event) := by
  obtain ⟨orderly, covered⟩ := sound
  constructor
  · apply Reentrant.step_keeps Orderly _ _ now event orderly clean
    · exact fun s item rest event next orderly _ turned => orderly_turn orderly turned
    · exact fun now event next orderly _ _ called => orderly_call orderly called
  · apply Reentrant.covered_step Orderly _ _ now event orderly clean covered
    · exact fun s item rest event next orderly turned queue owed =>
        owed_turn orderly.toFiled turned queue owed
    · exact fun now event next orderly clean called queue owed =>
        owed_call orderly.toFiled clean called owed

/-- As long as connections given back from outside the cache and documents that stop holding back
their requests leave nothing behind, no request stalls. -/
theorem noStall_of_clean (maxRequestsInFlightPerHost : Int) (events : List Event)
    (clean : Along (machine maxRequestsInFlightPerHost).step Clean ⟨init, []⟩ events)
    (idle : (after (machine maxRequestsInFlightPerHost).step ⟨init, []⟩ events).items = []) :
    (after (machine maxRequestsInFlightPerHost).step ⟨init, []⟩ events).state.NoStall := by
  obtain ⟨-, covered⟩ := after_of_along Sound (sound_step maxRequestsInFlightPerHost) _ events
    sound_init clean
  intro h priority startable
  by_contra inactive
  exact covered.settled idle (h, priority) ⟨Bool.eq_false_iff.mpr inactive, startable⟩

/-- An image waits for the only connection to its host until a script's request gives it back. -/
def imageBehindScript : List Event :=
  [.nonCacheRequestInFlight (some [97]), .load 0 .imageResource false (some [97]),
    .proceed, .proceed, .proceed, .proceed, .nonCacheRequestComplete (some [97])]

theorem noStall_before_complete :
    (after (machine 1).step ⟨init, []⟩ imageBehindScript.dropLast).state.NoStall :=
  noStall_of_clean 1 imageBehindScript.dropLast (by simp [Along, imageBehindScript, Clean]) (by decide)

/-- The image is not loaded when the connection is given back. -/
theorem not_noStall_imageBehindScript :
    ¬∀ (maxRequestsInFlightPerHost : Int) (events : List Event),
      (after (machine maxRequestsInFlightPerHost).step ⟨init, []⟩ events).items = [] →
      (after (machine maxRequestsInFlightPerHost).step ⟨init, []⟩ events).state.NoStall := by
  intro all
  have active := all 1 imageBehindScript (by decide) 1 .low
    ⟨by decide, by decide, fun higher _ request first => ?_⟩
  · exact absurd active (by decide)
  · cases higher with
    | low =>
      cases first
      decide
    | medium => cases first
    | high => cases first

end Loader

end WkcBrowser.Requests
