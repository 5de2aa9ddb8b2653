import WkcBrowser.Loader.Requests

/-! Which pending requests wait for a connection and which wait for nobody. A request that could start is
owed a turn of the queues, by the request timer or by an item of the loader's own stack. -/

namespace WkcBrowser.Requests

open Wtf Lib

namespace Loader

/-- The queue has a request, and the connection limit holds back neither the first request of the queue
nor the first of any queue before it. -/
def Ready (s : Loader) (host : Host) (priority : Priority) : Prop :=
  host.requestsPending priority ≠ [] ∧
    ∀ higher, priority.rank ≤ higher.rank →
      ∀ request ∈ (host.requestsPending higher).head?, s.limited host request = false

/-- A request of the host waits for neither a connection nor the end of a suspension. -/
def Startable (s : Loader) (h : Nat) (priority : Priority) : Prop :=
  s.suspendingPendingRequests = false ∧ s.Ready (s.hosts h) priority

/-- Where a request could start, the timer will see to it. -/
def NoStall (s : Loader) : Prop := ∀ h priority, s.Startable h priority → s.requestTimer = true

/-- The queue is to be served, and the timer will not do it. -/
def Owed (s : Loader) (queue : Nat × Priority) : Prop :=
  s.requestTimer = false ∧ s.Startable queue.1 queue.2

end Loader

/-- The item comes to the queue. -/
def Item.Covers : Item → Nat × Priority → Prop
  | .servePendingRequests h minimumPriority, queue =>
    queue.1 = h ∧ queue.2 ∈ minimumPriority.downTo
  | .serveQueues h priorities, queue | .create h _ priorities, queue =>
    queue.1 = h ∧ queue.2 ∈ priorities ∧ priorities.Pairwise fun p q => q.rank < p.rank
  | .hostsToServe, queue => queue.1 ≠ 0
  | .serveHosts hosts, queue => queue.1 ∈ hosts
  | .cancelHosts .., _ => True
  | _, _ => False

/-- A pass over the hosts. -/
def Item.isPass : Item → Bool
  | .hostsToServe | .serveHosts _ => true
  | _ => false

namespace Loader

/-- Hosts with pending requests are entered, under names of their own. -/
structure Filed (s : Loader) : Prop where
  entered : ∀ h priority, (s.hosts h).requestsPending priority ≠ [] → h = 0 ∨ h ∈ s.mapped
  named : ∀ h ∈ s.mapped, ∀ k ∈ s.mapped, (s.hosts h).name = (s.hosts k).name → h = k
  nodup : s.mapped.Nodup
  known : ∀ h ∈ s.mapped, h < s.hostCount
  made : 0 < s.hostCount

/-- The state and the stack belong together: a pass goes on exactly while timers fire, over hosts that
are still entered. -/
structure Orderly (s : Loader) (items : List Item) : Prop extends Filed s where
  passes : items.countP Item.isPass = if s.firingTimers then 1 else 0
  serves : ∀ hosts, .serveHosts hosts ∈ items → hosts.Nodup ∧ ∀ h ∈ hosts, h ∈ s.mapped

section
variable {s s' : Loader} {items : List Item} {h : Nat} {host host' : Host}
  {priority : Priority}

theorem mem_downTo (priority : Priority) : priority ∈ priority.downTo := by
  cases priority <;> decide

theorem mem_downTo_low (priority : Priority) : priority ∈ Priority.low.downTo := by
  cases priority <;> decide

theorem pairwise_downTo (priority : Priority) :
    priority.downTo.Pairwise fun p q => q.rank < p.rank := by
  cases priority <;> decide

@[simp] theorem setHost_hosts (s : Loader) (h : Nat) (host : Host) :
    (s.setHost h host).hosts = Function.update s.hosts h host := rfl

/-- More requests in flight hold back more. -/
theorem limited_of_busier (name : host'.name = host.name)
    (most : host'.maxRequestsInFlight = host.maxRequestsInFlight)
    (busier : host.requestsInFlight ≤ host'.requestsInFlight)
    (documents : s'.parsing = s.parsing ∧ s'.haveStylesheetsLoaded = s.haveStylesheetsLoaded)
    (request : Request) (free : s'.limited host' request = false) :
    s.limited host request = false := by
  simp only [limited, shouldLimitRequests, name, most, documents.1, documents.2,
    Bool.and_eq_false_imp, decide_eq_false_iff_not] at free ⊢
  intro limits full
  exact free limits (Int.le_trans full busier)

/-- With the same requests pending a host is ready only where it was, unless one is held back no more. -/
theorem ready_of_limited (pending : host'.requestsPending = host.requestsPending)
    (frees : ∀ request, s'.limited host' request = false → s.limited host request = false)
    (ready : s'.Ready host' priority) : s.Ready host priority := by
  obtain ⟨waiting, free⟩ := ready
  rw [pending] at waiting free
  exact ⟨waiting, fun higher above request first => frees request (free higher above request first)⟩

theorem ready_of_busier (name : host'.name = host.name)
    (most : host'.maxRequestsInFlight = host.maxRequestsInFlight)
    (busier : host.requestsInFlight ≤ host'.requestsInFlight)
    (pending : host'.requestsPending = host.requestsPending)
    (documents : s'.parsing = s.parsing ∧ s'.haveStylesheetsLoaded = s.haveStylesheetsLoaded)
    (ready : s'.Ready host' priority) : s.Ready host priority :=
  ready_of_limited pending (limited_of_busier name most busier documents) ready

theorem pending_of_idle (idle : host.hasRequests = false) (priority : Priority) :
    host.requestsPending priority = [] := by
  simp only [Host.hasRequests, Bool.or_eq_false_iff, List.any_eq_false] at idle
  have each := idle.2 priority (by cases priority <;> decide)
  simpa using each

/-- A host without requests is ready for nothing. -/
theorem not_ready_of_idle (idle : host.hasRequests = false) : ¬s.Ready host priority :=
  fun ready => ready.1 (pending_of_idle idle priority)

/-- Taking a first request that may start makes no queue ready that was not. -/
theorem ready_of_removeFirst {other : Priority} {request : Request} {rest : List Request}
    (pending : host.requestsPending priority = request :: rest)
    (free : s.limited host request = false)
    (ready : s.Ready (host.removeFirst priority) other) : s.Ready host other := by
  obtain ⟨waiting, frees⟩ := ready
  constructor
  · by_cases same : other = priority
    · rw [same, pending]
      exact List.cons_ne_nil _ _
    · simpa only [Host.removeFirst, Function.update_of_ne same] using waiting
  intro higher above first head
  by_cases same : higher = priority
  · subst same
    rw [pending] at head
    cases head
    exact free
  · apply frees higher above first
    simpa only [Host.removeFirst, Function.update_of_ne same] using head

/-- A further request makes no other queue ready, nor its own when that has a request. -/
theorem ready_of_addRequest {other : Priority} {request : Request}
    (old : other ≠ priority ∨ host.requestsPending priority ≠ [])
    (ready : s.Ready (host.addRequest request priority) other) : s.Ready host other := by
  obtain ⟨waiting, frees⟩ := ready
  constructor
  · by_cases same : other = priority
    · subst same
      exact old.resolve_left (fun different => different rfl)
    · simpa only [Host.addRequest, Function.update_of_ne same] using waiting
  · intro higher above first head
    apply frees higher above first
    by_cases same : higher = priority
    · subst same
      simp only [Host.addRequest, Function.update_self, List.head?_append]
      rw [Option.mem_def.mp head]
      rfl
    · simpa only [Host.addRequest, Function.update_of_ne same] using head

/-- Where the first request of a queue is held back, this queue and those after it are not ready. -/
theorem not_ready_of_limited {other : Priority} {request : Request} {rest : List Request}
    (pending : host.requestsPending priority = request :: rest)
    (held : s.limited host request = true) (below : other.rank ≤ priority.rank) :
    ¬s.Ready host other := by
  intro ready
  have free := ready.2 priority below request (by rw [pending]; rfl)
  rw [held] at free
  cases free

/-- Changes of one host leave what is owed to the others. -/
theorem owed_setHost {queue : Nat × Priority}
    (ready : queue.1 = h → s.Ready host queue.2 → s.Ready (s.hosts h) queue.2)
    (owed : (s.setHost h host).Owed queue) : s.Owed queue := by
  obtain ⟨timer, suspended, now⟩ := owed
  refine ⟨timer, suspended, ?_⟩
  by_cases same : queue.1 = h
  · simp only [setHost_hosts, same, Function.update_self] at now
    rw [same]
    exact ready same now
  · simp only [setHost_hosts, Function.update_of_ne same] at now
    exact now

theorem owed_serveQueue {lower : List Priority} {queue : Nat × Priority}
    (owed : (s.serveQueue h priority lower).1.Owed queue) :
    (∃ item ∈ (s.serveQueue h priority lower).2, item.Covers queue) ∨
      s.Owed queue ∧ ¬(Item.serveQueues h (priority :: lower)).Covers queue := by
  unfold serveQueue at owed ⊢
  split at owed
  · rename_i empty
    by_cases covered : (Item.serveQueues h lower).Covers queue
    · exact .inl ⟨_, List.mem_singleton_self _, covered⟩
    · refine .inr ⟨owed, ?_⟩
      rintro ⟨host, member, ordered⟩
      obtain same | member := List.mem_cons.mp member
      · apply owed.2.2.1
        rw [host, same]
        exact empty
      · exact covered ⟨host, member, ordered.of_cons⟩
  · rename_i request rest pending
    split at owed
    · rename_i held
      refine .inr ⟨owed, ?_⟩
      rintro ⟨host, member, ordered⟩
      apply not_ready_of_limited pending held _ (host ▸ owed.2.2)
      obtain same | member := List.mem_cons.mp member
      · exact (congrArg Priority.rank same).le
      · exact (List.rel_of_pairwise_cons ordered member).le
    · rename_i free
      rw [if_neg free]
      by_cases covered : (Item.create h request (priority :: lower)).Covers queue
      · exact .inl ⟨_, List.mem_singleton_self _, covered⟩
      · exact .inr ⟨owed_setHost (fun _ => ready_of_removeFirst pending
          (Bool.eq_false_iff.mpr free)) owed, covered⟩

theorem owed_created {request : Request} {priorities : List Priority} {loader : Bool}
    {queue : Nat × Priority} (owed : (s.created h request priorities loader).1.Owed queue) :
    (∃ item ∈ (s.created h request priorities loader).2, item.Covers queue) ∨
      s.Owed queue ∧ ¬(Item.create h request priorities).Covers queue := by
  by_cases covered : (Item.serveQueues h priorities).Covers queue
  · left
    cases loader with
    | true => exact ⟨_, List.mem_singleton_self _, covered⟩
    | false => exact ⟨_, List.mem_cons_of_mem _ (List.mem_singleton_self _), covered⟩
  · refine .inr ⟨?_, covered⟩
    cases loader with
    | false => exact owed
    | true =>
      have made : (s.setHost h { s.hosts h with
          requestsLoading := (s.hosts h).requestsLoading ++ [(s.subresourceLoaders, request)] }).Owed
          queue := owed
      apply owed_setHost _ made
      intro _ ready
      refine ready_of_busier (by rfl) (by rfl) ?_ (by rfl) ⟨by rfl, by rfl⟩ ready
      simp only [Host.requestsInFlight, List.length_append, List.length_singleton]
      omega

theorem owed_serveHost {rest : List Nat} {queue : Nat × Priority}
    (owed : (s.serveHost h rest).1.Owed queue) :
    (∃ item ∈ (s.serveHost h rest).2, item.Covers queue) ∨
      s.Owed queue ∧ ¬(Item.serveHosts (h :: rest)).Covers queue := by
  by_cases later : queue.1 ∈ rest
  · left
    unfold serveHost
    split
    · exact ⟨.serveHosts rest, by simp, later⟩
    split <;> exact ⟨.serveHosts rest, by simp, later⟩
  · unfold serveHost at owed ⊢
    split at owed
    · by_cases same : queue.1 = h
      · exact .inl ⟨.servePendingRequests h .low, by simp [*], same, mem_downTo_low _⟩
      · exact .inr ⟨owed, List.not_mem_cons_of_ne_of_not_mem same later⟩
    · rename_i idle
      have before : s.Owed queue := by
        split at owed <;> exact owed
      refine .inr ⟨before, List.not_mem_cons_of_ne_of_not_mem ?_ later⟩
      intro same
      apply not_ready_of_idle (Bool.eq_false_iff.mpr idle)
      exact same ▸ before.2.2

/-- A connection that comes free is owed to its host alone, and the host is served. -/
theorem owed_release {loader : Nat} {queue : Nat × Priority}
    (owed : (s.release h loader).1.Owed queue) :
    (∃ item ∈ (s.release h loader).2, item.Covers queue) ∨ s.Owed queue := by
  by_cases same : queue.1 = h
  · exact .inl ⟨.servePendingRequests h .low, by simp [release], same, mem_downTo_low _⟩
  · exact .inr (owed_setHost (fun other => absurd other same) owed)

/-- What an item covers it hands on, or serves. -/
theorem owed_turn (filed : s.Filed) {item : Item} {event : Event} {next : Loader × List Item}
    (turned : s.turn item event = some next) (queue : Nat × Priority) (owed : next.1.Owed queue) :
    (∃ item' ∈ next.2, item'.Covers queue) ∨ s.Owed queue ∧ ¬item.Covers queue := by
  unfold turn at turned
  split at turned
  · rename_i h minimumPriority
    split at turned
    · rename_i suspended
      cases turned
      exact absurd (owed.2.1.symm.trans suspended) Bool.false_ne_true
    · cases turned
      by_cases covered : (Item.servePendingRequests h minimumPriority).Covers queue
      · exact .inl ⟨_, List.mem_singleton_self _, covered.1, covered.2, pairwise_downTo _⟩
      · exact .inr ⟨owed, covered⟩
  · cases turned
    exact .inr ⟨owed, fun covers => List.not_mem_nil covers.2.1⟩
  · cases turned
    exact owed_serveQueue owed
  · cases turned
    exact owed_created owed
  · cases turned
    by_cases first : queue.1 = 0
    · exact .inr ⟨owed, fun covers => covers first⟩
    · left
      exact ⟨_, List.mem_singleton_self _, (filed.entered _ _ owed.2.2.1).resolve_left first⟩
  · cases turned
    exact .inr ⟨owed, List.not_mem_nil⟩
  · cases turned
    exact owed_serveHost owed
  · cases turned
    exact .inl ⟨_, List.mem_singleton_self _, trivial⟩
  · cases turned
    cases owed.1
  · rename_i docLoader copied h rest
    cases turned
    left
    unfold cancelHost
    split <;> exact ⟨.cancelHosts docLoader copied rest, by simp, trivial⟩
  · cases turned
    exact .inr ⟨owed, id⟩
  · rename_i h loader rest
    cases turned
    unfold cancelLoader at owed ⊢
    split at owed
    · obtain ⟨item, member, covers⟩ | before := owed_release owed
      · exact .inl ⟨item, List.mem_append_left _ member, covers⟩
      · exact .inr ⟨before, id⟩
    · exact .inr ⟨owed, id⟩
  · cases turned
    exact .inr ⟨owed, id⟩
  · cases turned

end

/-- What is pending on the host waits for nobody: a suspension, the timer or the loader's own stack
sees to it. -/
def Served (now : Agenda Loader Item) (h : Nat) : Prop :=
  now.state.suspendingPendingRequests = true ∨ now.state.requestTimer = true ∨
    ∀ priority, (now.state.hosts h).requestsPending priority ≠ [] →
      ∃ item ∈ now.items, item.Covers (h, priority)

/-- A request outside the cache that gives back the last connection of its host, and a document that
stops holding back its requests to a host without a connection, leave nothing behind. -/
def Clean (now : Agenda Loader Item) : Event → Prop
  | .nonCacheRequestComplete (some name) => ∀ h, now.state.get name = some h →
    (now.state.hosts h).requestsInFlight = (now.state.hosts h).maxRequestsInFlight → Served now h
  | .documentChanged docLoader parsing haveStylesheetsLoaded =>
    (now.state.parsing docLoader || !now.state.haveStylesheetsLoaded docLoader) = true →
    (parsing || !haveStylesheetsLoaded) = false →
    ∀ h, (now.state.hosts h).name = none →
      (now.state.hosts h).maxRequestsInFlight ≤ (now.state.hosts h).requestsInFlight →
      (∃ priority, ∃ request ∈ ((now.state.hosts h).requestsPending priority).head?,
        request.docLoader = docLoader) → Served now h
  | _ => True

section
variable {s : Loader} {now : Agenda Loader Item} {maxRequestsInFlightPerHost : Int}
  {queue : Nat × Priority}

theorem owed_hostOf {name : Text}
    (owed : (s.hostOf maxRequestsInFlightPerHost name).1.Owed queue) : s.Owed queue := by
  unfold hostOf at owed
  split at owed
  · exact owed
  · have made : (s.setHost s.hostCount
        ⟨some name, maxRequestsInFlightPerHost, fun _ => [], [], 0⟩).Owed queue := owed
    exact owed_setHost (fun _ ready => absurd rfl ready.1) made

theorem owed_load {docLoader : Nat} {type : CachedResourceType} {isCacheValidator : Bool}
    {httpHost : Option Text}
    (owed : (s.load maxRequestsInFlightPerHost docLoader type isCacheValidator httpHost).1.Owed
      queue) :
    s.Owed queue ∨
      ∃ item ∈ (s.load maxRequestsInFlightPerHost docLoader type isCacheValidator httpHost).2,
        item.Covers queue := by
  have before : (s.hostFor maxRequestsInFlightPerHost httpHost).1.Owed queue → s.Owed queue := by
    cases httpHost with
    | none => exact id
    | some name => exact owed_hostOf
  unfold load at owed ⊢
  generalize s.hostFor maxRequestsInFlightPerHost httpHost = entered at owed before ⊢
  dsimp only at owed ⊢
  split at owed
  · rw [if_pos ‹_›]
    by_cases mine : queue = (entered.2, determinePriority type)
    · right
      refine ⟨.servePendingRequests entered.2 (determinePriority type), by simp, ?_⟩
      rw [mine]
      exact ⟨rfl, mem_downTo _⟩
    · left
      apply before
      apply owed_setHost _ owed
      intro host ready
      apply ready_of_addRequest (.inl _) ready
      intro same
      exact mine (Prod.ext host same)
  · cases owed.1

theorem owed_resumePendingRequests (filed : s.Filed) : ¬s.resumePendingRequests.Owed queue := by
  intro owed
  unfold resumePendingRequests at owed
  dsimp only at owed
  split at owed
  · cases owed.1
  · rename_i nothing
    obtain ⟨empty, idle⟩ := not_or.mp nothing
    obtain first | member := filed.entered _ _ owed.2.2.1
    · apply not_ready_of_idle (Bool.eq_false_iff.mpr idle)
      exact first ▸ owed.2.2
    · rw [not_not.mp empty] at member
      cases member

theorem owed_requestTimerFired (owed : s.requestTimerFired.1.Owed queue) :
    ∃ item ∈ s.requestTimerFired.2, item.Covers queue := by
  unfold requestTimerFired at owed ⊢
  dsimp only at owed ⊢
  split at owed
  · rename_i suspended
    exact absurd (owed.2.1.symm.trans suspended) Bool.false_ne_true
  · rw [if_neg ‹_›]
    by_cases first : queue.1 = 0
    · exact ⟨.servePendingRequests 0 .low, by simp, first, mem_downTo_low _⟩
    · exact ⟨.hostsToServe, by simp, first⟩

theorem owed_nonCacheRequestInFlight {name : Text}
    (owed : (s.nonCacheRequestInFlight maxRequestsInFlightPerHost name).Owed queue) :
    s.Owed queue := by
  unfold nonCacheRequestInFlight at owed
  apply owed_hostOf
  apply owed_setHost _ owed
  intro _ ready
  refine ready_of_busier (by rfl) (by rfl) ?_ (by rfl) ⟨by rfl, by rfl⟩ ready
  simp only [Host.requestsInFlight]
  omega

theorem owed_revalidationFailed {h loader : Nat}
    (owed : (s.setHost h ((s.hosts h).revalidationFailed loader)).Owed queue) : s.Owed queue := by
  apply owed_setHost _ owed
  intro _ ready
  refine ready_of_busier (by rfl) (by rfl) ?_ (by rfl) ⟨by rfl, by rfl⟩ ready
  simp only [Host.requestsInFlight, Host.revalidationFailed, List.length_map, Int.le_refl]

/-- A host that is served has its queues covered wherever they are owed. -/
theorem Served.covers (served : Served now queue.1) (timer : now.state.requestTimer = false)
    (suspended : now.state.suspendingPendingRequests = false)
    (waiting : (now.state.hosts queue.1).requestsPending queue.2 ≠ []) :
    ∃ item ∈ now.items, item.Covers queue := by
  obtain held | active | covered := served
  · rw [suspended] at held
    cases held
  · rw [timer] at active
    cases active
  · exact covered queue.2 waiting

/-- Connections given back from outside the cache are used where the event is clean. -/
theorem owed_nonCacheRequestComplete {name : Text}
    (clean : Clean now (.nonCacheRequestComplete (some name)))
    (owed : (now.state.nonCacheRequestComplete name).Owed queue) :
    now.state.Owed queue ∨ ∃ item ∈ now.items, item.Covers queue := by
  unfold nonCacheRequestComplete at owed
  split at owed
  · rename_i h found
    by_cases mine : queue.1 = h
    · by_cases last : (now.state.hosts h).requestsInFlight = (now.state.hosts h).maxRequestsInFlight
      · have served : Served now queue.1 := mine ▸ clean h found last
        have waiting := owed.2.2.1
        rw [setHost_hosts, mine, Function.update_self] at waiting
        exact .inr (served.covers owed.1 owed.2.1 (mine ▸ waiting))
      · left
        apply owed_setHost _ owed
        intro _ ready
        apply ready_of_limited _ _ ready
        · rfl
        · intro request free
          simp only [limited, Bool.and_eq_false_imp, decide_eq_false_iff_not] at free ⊢
          intro limits full
          apply free limits
          simp only [Host.requestsInFlight] at last full ⊢
          omega
    · exact .inl (owed_setHost (fun same => absurd same mine) owed)
  · exact .inl owed

/-- A request that a change of a document sets free is one of that document, to a host without a name
that has no connection left. -/
theorem of_limited_documentChanged {docLoader : Nat} {parsing haveStylesheetsLoaded : Bool}
    {host : Host} {request : Request} (held : s.limited host request = true)
    (free : (s.documentChanged docLoader parsing haveStylesheetsLoaded).limited host request =
      false) :
    request.docLoader = docLoader ∧ host.name = none ∧
      host.maxRequestsInFlight ≤ host.requestsInFlight ∧
      (s.parsing docLoader || !s.haveStylesheetsLoaded docLoader) = true ∧
      (parsing || !haveStylesheetsLoaded) = false := by
  simp only [limited, shouldLimitRequests, Bool.and_eq_true, decide_eq_true_eq] at held free
  obtain ⟨limits, full⟩ := held
  rw [decide_eq_true full, Bool.and_true, Bool.or_assoc, Bool.or_eq_false_iff] at free
  rw [Bool.or_assoc, free.1, Bool.false_or] at limits
  have mine : request.docLoader = docLoader := by
    by_contra other
    have same := free.2
    simp only [documentChanged, Function.update_of_ne other] at same
    rw [same] at limits
    cases limits
  have none_ : host.name = none := by
    cases name : host.name with
    | none => rfl
    | some text =>
      rw [name] at free
      cases free.1
  have now := free.2
  simp only [documentChanged, mine, Function.update_self] at now
  exact ⟨mine, none_, full, mine ▸ limits, now⟩

theorem owed_documentChanged {docLoader : Nat} {parsing haveStylesheetsLoaded : Bool}
    (clean : Clean now (.documentChanged docLoader parsing haveStylesheetsLoaded))
    (owed : (now.state.documentChanged docLoader parsing haveStylesheetsLoaded).Owed queue) :
    now.state.Owed queue ∨ ∃ item ∈ now.items, item.Covers queue := by
  by_cases before : now.state.Ready (now.state.hosts queue.1) queue.2
  · exact .inl ⟨owed.1, owed.2.1, before⟩
  · right
    obtain ⟨timer, suspended, waiting, free⟩ := owed
    obtain ⟨higher, above, request, first, held⟩ : ∃ higher, queue.2.rank ≤ higher.rank ∧
        ∃ request ∈ ((now.state.hosts queue.1).requestsPending higher).head?,
          now.state.limited (now.state.hosts queue.1) request = true := by
      by_contra nowhere
      apply before
      refine ⟨waiting, fun higher above request first => ?_⟩
      by_contra held
      exact nowhere ⟨higher, above, request, first, Bool.not_eq_false _ ▸ held⟩
    obtain ⟨mine, name, full, limits, freed⟩ :=
      of_limited_documentChanged held (free higher above request first)
    have served : Served now queue.1 :=
      clean limits freed queue.1 name full ⟨higher, request, first, mine⟩
    exact served.covers timer suspended waiting

/-- What a clean call makes owed is covered. -/
theorem owed_call (filed : now.state.Filed) {event : Event} {next : Loader × List Item}
    (clean : Clean now event)
    (called : now.state.call maxRequestsInFlightPerHost event = some next)
    (owed : next.1.Owed queue) :
    now.state.Owed queue ∨ ∃ item ∈ next.2 ++ now.items, item.Covers queue := by
  have ours : (∃ item ∈ next.2, item.Covers queue) → ∃ item ∈ next.2 ++ now.items,
      item.Covers queue := by
    rintro ⟨item, member, covers⟩
    exact ⟨item, List.mem_append_left _ member, covers⟩
  unfold call at called
  split at called
  · cases called
    exact (owed_load owed).imp_right ours
  · cases called
    cases owed.2.1
  · cases called
    exact absurd owed (owed_resumePendingRequests filed)
  · split at called
    · cases called
      exact .inr (ours (owed_requestTimerFired owed))
    · cases called
  · cases called
    exact .inr ⟨_, List.mem_cons_self, trivial⟩
  · obtain ⟨_, _, rfl⟩ := Option.map_eq_some_iff.mp called
    exact (owed_release owed).symm.imp_right ours
  · obtain ⟨_, _, rfl⟩ := Option.map_eq_some_iff.mp called
    exact (owed_release owed).symm.imp_right ours
  · obtain ⟨request, _, rfl⟩ := Option.map_eq_some_iff.mp called
    unfold didReceiveResponse at owed ours ⊢
    split at owed
    · split at owed
      · rw [if_pos ‹_›, if_pos ‹_›] at ours ⊢
        exact (owed_release owed).symm.imp_right ours
      · exact .inl (owed_revalidationFailed owed)
    · exact .inl owed
  · cases called
    exact .inl (owed_nonCacheRequestInFlight owed)
  · cases called
    exact owed_nonCacheRequestComplete clean owed
  · cases called
    exact owed_documentChanged clean owed
  · cases called

end

end Loader

end WkcBrowser.Requests
