import WkcBrowser.Network.HeaderBlocks

/-! The callbacks receive a header block as `completeBlock` and `passBlock` say, whatever the clients
that are called meanwhile do. -/

namespace WkcBrowser.Network

open Wtf Lib.Interaction Program ResourceHandleManager
open Lib.Loop (Turn)

/-- The responses that the client of a job was handed. -/
def ResourceHandleManager.responses (m : ResourceHandleManager) (job : Nat) :
    List ResourceResponse :=
  (m.entries job).filterMap fun
    | .notice _ (.didReceiveResponse response) _ => some response
    | _ => none

/-- A step that leaves the response of a job alone and hands the given responses to its client. -/
structure Hands (job : Nat) (handed : List ResourceResponse) (m m' : ResourceHandleManager) :
    Prop where
  created : m.created ≤ m'.created
  response : (m'.jobs job).d.response = (m.jobs job).d.response
  ssl : (m'.jobs job).d.isSSL = (m.jobs job).d.isSSL
  info : (m'.jobs job).transfer.info = (m.jobs job).transfer.info
  cancelled : (m.jobs job).d.cancelled = true → (m'.jobs job).d.cancelled = true
  responses : m'.responses job = m.responses job ++ handed

section
variable {platform : Platform} {m m' m'' : ResourceHandleManager} {job : Nat}
variable {handed handed' : List ResourceResponse}

theorem Hands.refl (m : ResourceHandleManager) : Hands job [] m m :=
  ⟨Nat.le_refl _, rfl, rfl, rfl, id, (List.append_nil _).symm⟩

theorem Hands.trans (first : Hands job handed m m') (second : Hands job handed' m' m'') :
    Hands job (handed ++ handed') m m'' :=
  ⟨first.created.trans second.created, second.response.trans first.response,
    second.ssl.trans first.ssl, second.info.trans first.info,
    fun cancelled => second.cancelled (first.cancelled cancelled),
    by rw [second.responses, first.responses, List.append_assoc]⟩

/-- A write to a handle that keeps its response. -/
theorem Hands.write (other : Nat) {f : ResourceHandleInternal → ResourceHandleInternal}
    (keeps : ∀ d, (f d).response = d.response ∧ (f d).isSSL = d.isSSL ∧
      (d.cancelled = true → (f d).cancelled = true)) : Hands job [] m (m.write other f) := by
  refine ⟨Nat.le_refl _, ?_, ?_, ?_, ?_, (List.append_nil _).symm⟩ <;>
    rw [ResourceHandleManager.write, change_jobs] <;> split <;> rename_i same <;>
    first
    | exact same ▸ (keeps _).1
    | exact same ▸ (keeps _).2.1
    | exact same ▸ (keeps _).2.2
    | exact same ▸ rfl
    | exact id
    | rfl

/-- The response that an entry hands to the client of the job. -/
def handedBy (job : Nat) : Entry → List ResourceResponse
  | .notice other (.didReceiveResponse response) _ => if other = job then [response] else []
  | _ => []

theorem Hands.enter (entry : Entry) : Hands job (handedBy job entry) m (m.enter entry) := by
  refine ⟨Nat.le_refl _, rfl, rfl, rfl, id, ?_⟩
  by_cases own : entry.job = job
  · rw [ResourceHandleManager.responses, entries, ResourceHandleManager.enter, List.filter_append,
      List.filter_singleton, decide_eq_true own, List.filterMap_append]
    cases entry with
    | notice other notice transfer =>
      have same : other = job := own
      cases notice <;> simp [handedBy, same, ResourceHandleManager.responses, entries]
    | _ => simp [handedBy, ResourceHandleManager.responses, entries]
  · have silent : handedBy job entry = [] := by
      cases entry with
      | notice other notice transfer =>
        have different : other ≠ job := own
        cases notice <;> simp [handedBy, different]
      | _ => rfl
    have same : (m.enter entry).entries job = m.entries job :=
      congrArg View.entries (view_enter_other own)
    rw [silent, List.append_nil, ResourceHandleManager.responses, same]
    rfl

theorem doAuthChallenge_hands (m : ResourceHandleManager) (other : Nat) :
    Hands job [] m (m.doAuthChallenge other) := by
  unfold ResourceHandleManager.doAuthChallenge
  split
  · exact .refl _
  · exact .write other fun _ => ⟨rfl, rfl, id⟩

/-- An act of a client. -/
theorem clientAct_hands (known : job < m.created) (event : Event) :
    Hands job [] m (clientAct platform m event) := by
  cases event with
  | add request =>
    obtain ⟨atFirst, jobs, history, -⟩ := add_jobs platform m request
    have created : (m.add platform request).created = m.created + 1 :=
      congrArg Ledger.created (m.ledger_add platform request)
    have same : (m.add platform request).jobs job = m.jobs job := by
      rw [jobs, Function.update_of_ne (Nat.ne_of_lt known)]
    refine ⟨created ▸ Nat.le_succ _, ?_, ?_, ?_, ?_, ?_⟩
    · exact congrArg (·.d.response) same
    · exact congrArg (·.d.isSSL) same
    · exact congrArg (·.transfer.info) same
    · exact fun cancelled => (congrArg (·.d.cancelled) same).trans cancelled
    · rw [List.append_nil, ResourceHandleManager.responses, entries, clientAct, history]
      rfl
  | cancel other =>
    have entered : Hands job [] m (m.enter (.cancelled other)) := .enter (.cancelled other)
    have cancels : Hands job [] (m.enter (.cancelled other))
        ((m.enter (.cancelled other)).cancel other) := by
      generalize m.enter (.cancelled other) = m'
      by_cases waits : other ∈ m'.scheduledJobList
      · unfold cancel removeScheduledJob
        rw [if_pos waits]
        have viewed := view_deref { m' with scheduledJobList := m'.scheduledJobList.erase other }
          other job
        refine ⟨Nat.le_refl _, ?_, ?_, ?_, ?_, (List.append_nil _).symm⟩
        · exact congrArg (·.d.response) viewed
        · exact congrArg (·.d.isSSL) viewed
        · exact congrArg (·.transfer.info) viewed
        · exact fun cancelled => (congrArg (·.d.cancelled) viewed).trans cancelled
      · rw [cancel_out waits]
        have marked : Hands job [] m' (m'.write other fun d => { d with cancelled := true }) :=
          .write other fun _ => ⟨rfl, rfl, fun _ => rfl⟩
        exact ⟨marked.created, marked.response, marked.ssl, marked.info, marked.cancelled,
          marked.responses⟩
    exact entered.trans cancels
  | releaseClient other =>
    have entered : Hands job [] m (m.enter (.released other)) := .enter (.released other)
    have gone : Hands job [] (m.enter (.released other))
        ((m.enter (.released other)).write other fun d => { d with client := false }) :=
      .write other fun _ => ⟨rfl, rfl, id⟩
    exact entered.trans gone
  | receivedCredential other challenge credential =>
    rw [clientAct, receivedCredential]
    split
    · exact .refl m
    · have set : Hands job [] m (m.write other fun d => { d with
          webChallenge := some { challenge with proposedCredential := credential } }) :=
        .write other fun _ => ⟨rfl, rfl, id⟩
      exact set.trans (doAuthChallenge_hands _ other)
  | receivedRequestToContinueWithoutCredential other challenge =>
    rw [clientAct, receivedRequestToContinueWithoutCredential]
    split
    · exact .refl m
    · exact .write other fun _ => ⟨rfl, rfl, id⟩
  | receivedProxyCredential other credential =>
    have done : Hands job [] m (m.doAuthChallenge other) := doAuthChallenge_hands m other
    exact ⟨done.created, done.response, done.ssl, done.info, done.cancelled, done.responses⟩
  | clearCookies => exact ⟨Nat.le_refl _, rfl, rfl, rfl, id, (List.append_nil _).symm⟩
  | _ => exact .refl m

theorem meets_notify_hands (known : job < m.created) (other : Nat) (notice : Notice) :
    Meets AnyEvent (fun _ => True) (notify platform other notice) m fun _ m' =>
      Hands job (handedBy job (.notice other notice (m.jobs other).transfer)) m m' := by
  apply meets_bind
  apply meets_update
  apply meets_loop fun _ m' =>
    Hands job (handedBy job (.notice other notice (m.jobs other).transfer)) m m'
  · exact fun _ _ _ => trivial
  · intro _ m' hands
    apply meets_bind
    apply meets_await trivial
    intro event act accepted _
    apply meets_ite
    · exact fun _ => meets_pure hands
    · intro _
      apply meets_bind
      apply meets_update
      have acted : Hands job [] m' (clientAct platform m' act) :=
        clientAct_hands (Nat.lt_of_lt_of_le known hands.created) act
      refine meets_pure ?_
      have both := hands.trans acted
      rw [List.append_nil] at both
      exact both
  · exact .enter _

/-- A call of the client of the job that hands over nothing. -/
theorem meets_notifyClient_quiet (known : job < m.created) {notice : Notice}
    (quiet : ∀ transfer, handedBy job (.notice job notice transfer) = []) :
    Meets AnyEvent (fun _ => True) (notifyClient platform job notice) m fun _ m' =>
      Hands job [] m m' := by
  apply meets_bind
  apply meets_read
  apply meets_ite
  · intro _
    apply (meets_notify_hands known job notice).mono
    intro _ m' hands
    rw [quiet] at hands
    exact hands
  · exact fun _ => meets_pure (.refl m)

/-- A line of a block other than the blank one. -/
def deliverLine (platform : Platform) (job : Nat) (line : Info × List Byte) : Procedure Unit := do
  update fun m => m.change job fun handle =>
    { handle with transfer := handle.transfer.receive line.2 line.1 }
  let _ ← headerCallback platform job line.2

/-- The job is cancelled or its response is the given one. -/
def Holds (job : Nat) (response : ResourceResponse) (m : ResourceHandleManager) : Prop :=
  (m.jobs job).d.cancelled = true ∨ (m.jobs job).d.response = response

/-- What the callbacks do to a job whose response they fill. -/
structure Fills (job : Nat) (handed : List ResourceResponse) (response : ResourceResponse)
    (m m' : ResourceHandleManager) : Prop where
  created : m.created ≤ m'.created
  cancelled : (m.jobs job).d.cancelled = true → (m'.jobs job).d.cancelled = true
  responses : m'.responses job = m.responses job ++ handed
  response : Holds job response m'

theorem meets_deliverLine (known : job < m.created) {line : Info × List Byte}
    (filled : isBlank line.2 = false) :
    Meets AnyEvent (fun _ => True) (deliverLine platform job line) m fun _ m' =>
      Fills job [] (headerLine platform line.1 (widen line.2) (m.jobs job).d.response) m m' ∧
        (m'.jobs job).d.isSSL = (m.jobs job).d.isSSL := by
  apply meets_bind
  apply meets_update
  generalize received : (m.change job fun handle =>
    { handle with transfer := handle.transfer.receive line.2 line.1 }) = m₁
  have same : (m₁.jobs job).d = (m.jobs job).d ∧ (m₁.jobs job).transfer.info = line.1 ∧
      m₁.created = m.created ∧ m₁.responses job = m.responses job := by
    rw [← received, change_jobs, if_pos rfl]
    exact ⟨rfl, rfl, rfl, rfl⟩
  obtain ⟨d, info, created, responses⟩ := same
  have known₁ : job < m₁.created := created ▸ known
  apply meets_bind
  apply meets_bind
  apply meets_read
  apply meets_ite
  · intro cancelled
    refine meets_pure (meets_pure ⟨⟨created.ge, fun before => ?_, ?_, Or.inl cancelled⟩, ?_⟩)
    · rw [d]
      exact before
    · rw [responses, List.append_nil]
    · rw [d]
  intro _
  apply meets_bind
  apply (meets_notifyClient_quiet known₁ fun _ => rfl).mono
  intro _ m₂ hands
  have kept : m.created ≤ m₂.created ∧
      ((m.jobs job).d.cancelled = true → (m₂.jobs job).d.cancelled = true) ∧
      m₂.responses job = m.responses job ++ [] ∧
      (m₂.jobs job).d.isSSL = (m.jobs job).d.isSSL :=
    ⟨created ▸ hands.created, fun before => hands.cancelled (d ▸ before),
      responses ▸ hands.responses, hands.ssl.trans (congrArg (·.isSSL) d)⟩
  apply meets_bind
  apply meets_read
  apply meets_ite
  · exact fun cancelled => meets_pure (meets_pure ⟨⟨kept.1, kept.2.1, kept.2.2.1, Or.inl cancelled⟩,
      kept.2.2.2⟩)
  intro _
  rw [if_neg (by simp [filled])]
  apply meets_bind
  apply meets_read
  apply meets_bind
  apply meets_update
  refine meets_pure (meets_pure ⟨⟨kept.1, fun before => ?_, kept.2.2.1, Or.inr ?_⟩, ?_⟩)
  · rw [write_d]
    exact kept.2.1 before
  · rw [write_d, hands.info, info, hands.response, d]
  · rw [write_d]
    exact kept.2.2.2

theorem meets_receiveChallenge_hands (known : job < m.created) (httpCode : Nat) :
    Meets AnyEvent (fun _ => True) (receiveChallenge platform job httpCode) m fun _ m' =>
      Hands job [] m m' := by
  have challenged : ∀ {m : ResourceHandleManager} (challenge : AuthenticationChallenge),
      Hands job [] m (m.write job fun d => { d with webChallenge := some challenge }) :=
    fun _ => .write job fun _ => ⟨rfl, rfl, id⟩
  have ask : ∀ {m m' : ResourceHandleManager} (challenge : AuthenticationChallenge),
      Hands job [] m m' → job < m.created → Meets AnyEvent (fun _ => True)
        (notifyClient platform job (.didReceiveAuthenticationChallenge challenge)) m'
        fun _ m'' => Hands job [] m m'' := by
    intro m m' challenge hands known
    apply (meets_notifyClient_quiet (Nat.lt_of_lt_of_le known hands.created) fun _ => rfl).mono
    exact fun _ _ asked => hands.trans asked
  have server : Meets AnyEvent (fun _ => True) (didReceiveAuthenticationChallenge platform job) m
      fun _ m' => Hands job [] m m' := by
    apply meets_bind
    apply meets_read
    apply meets_ite
    · exact fun _ => meets_pure (.refl m)
    intro _
    apply meets_bind
    apply meets_read
    apply meets_bind
    apply meets_update
    apply meets_ite
    · intro _
      exact ask _ (challenged _) known
    · exact fun _ => meets_pure (challenged _)
  have proxy : ∀ {m : ResourceHandleManager}, job < m.created → Meets AnyEvent (fun _ => True)
      (didReceiveProxyAuthChallenge platform job) m fun _ m' => Hands job [] m m' := by
    intro m known
    apply meets_bind
    apply meets_read
    apply meets_ite
    · exact fun _ => meets_pure (.refl m)
    intro _
    apply meets_bind
    apply meets_read
    apply meets_bind
    apply meets_read
    apply meets_ite
    · exact fun _ => meets_pure (.refl m)
    intro _
    apply meets_bind
    apply meets_read
    apply meets_ite
    · exact fun _ => meets_pure (.refl m)
    intro _
    apply meets_bind
    apply meets_update
    apply meets_ite
    · intro _
      apply meets_bind
      apply meets_read
      apply meets_ite
      · intro _
        exact meets_update ((challenged _).trans (doAuthChallenge_hands _ job))
      · intro _
        exact ask _ (challenged _) known
    · exact fun _ => meets_pure (challenged _)
  have second : ∀ {m : ResourceHandleManager}, job < m.created → Meets AnyEvent (fun _ => True)
      (do
        if httpCode = 407 ∧ (← internal job).response.isHTTP platform then
          didReceiveProxyAuthChallenge platform job) m fun _ m' => Hands job [] m m' := by
    intro m known
    apply meets_bind
    apply meets_read
    apply meets_ite
    · exact fun _ => proxy known
    · exact fun _ => meets_pure (.refl m)
  apply meets_bind
  apply meets_read
  apply meets_ite
  · intro _
    apply meets_bind
    apply server.mono
    intro _ m' hands
    apply (second (Nat.lt_of_lt_of_le known hands.created)).mono
    exact fun _ _ later => hands.trans later
  · exact fun _ => second known

/-- The blank line hands over nothing or the response of its block. -/
def Completes (platform : Platform) (job : Nat) (block : HeaderBlock)
    (response : ResourceResponse) (m m' : ResourceHandleManager) : Prop :=
  ∃ handed reached,
    Fills job handed (passBlock platform response { block with reached }) m m' ∧
      (handed = [] ∨ handed = [completeBlock platform response block])

/-- The job was cancelled, so that its response matters no more. -/
theorem Completes.cancelled {block : HeaderBlock} {before : ResourceResponse}
    {handed : List ResourceResponse} (hands : Hands job handed m m')
    (same : handed = [] ∨ handed = [completeBlock platform before block])
    (cancelled : (m'.jobs job).d.cancelled = true) : Completes platform job block before m m' :=
  ⟨handed, true, ⟨hands.created, hands.cancelled, hands.responses, Or.inl cancelled⟩, same⟩

theorem meets_announce_completes {httpCode : Nat} {block : HeaderBlock}
    {before : ResourceResponse} (known : job < m.created)
    (code : blockCode block.isSSL block.info = some httpCode)
    (complete : (m.jobs job).d.response = completeBlock platform before block) (totalSize : Nat) :
    Meets AnyEvent (fun _ => True) (announce platform job httpCode totalSize) m fun _ m' =>
      Completes platform job block before m m' := by
  have reached : passBlock platform before { block with reached := true } =
      if redirects platform (completeBlock platform before block) block then
        clearRedirect platform (completeBlock platform before block)
      else { completeBlock platform before block with responseFired := true } := by
    unfold passBlock
    dsimp only
    rw [if_neg (by simp [code])]
    rfl
  have redirect : redirects platform (completeBlock platform before block) block ↔
      (300 ≤ httpCode ∧ httpCode < 400) ∧
        fieldText platform (m.jobs job).d.response "location" ≠ [] := by
    simp [redirects, code, complete]
  apply meets_bind
  apply meets_read
  apply meets_ite
  · exact fun cancelled => meets_pure (.cancelled (.refl m) (Or.inl rfl) cancelled)
  intro _
  apply meets_bind
  apply meets_read
  apply meets_ite
  · intro _
    refine meets_pure ⟨[], false, ⟨Nat.le_refl _, id, (List.append_nil _).symm, Or.inr ?_⟩,
      Or.inl rfl⟩
    rw [complete, passBlock]
    simp only [or_true, if_true]
    rfl
  intro _
  apply meets_bind
  apply meets_read
  apply meets_ite
  · intro follows
    rw [if_pos (redirect.mpr follows)] at reached
    apply meets_bind
    apply meets_read
    apply meets_bind
    apply (meets_notifyClient_quiet known fun _ => rfl).mono
    intro _ m' hands
    apply meets_bind
    apply meets_read
    apply meets_ite
    · exact fun cancelled => meets_pure (.cancelled hands (Or.inl rfl) cancelled)
    intro _
    apply meets_bind
    apply meets_update
    refine meets_pure ⟨[], true, ⟨hands.created, ?_, hands.responses, Or.inr ?_⟩, Or.inl rfl⟩
    · intro cancelled
      rw [write_d]
      exact hands.cancelled cancelled
    · rw [write_d, reached, hands.response, complete]
  · intro stays
    rw [if_neg (redirect.not.mpr stays)] at reached
    have hand : Meets AnyEvent (fun _ => True)
        (notifyClient platform job (.didReceiveResponse (m.jobs job).d.response)) m fun _ m' =>
          ∃ handed, Hands job handed m m' ∧
            (handed = [] ∨ handed = [completeBlock platform before block]) := by
      apply meets_bind
      apply meets_read
      apply meets_ite
      · intro _
        apply (meets_notify_hands known job _).mono
        intro _ m' hands
        refine ⟨_, hands, Or.inr ?_⟩
        rw [handedBy, if_pos rfl, complete]
      · exact fun _ => meets_pure ⟨[], .refl m, Or.inl rfl⟩
    apply meets_bind
    apply meets_read
    apply meets_bind
    apply hand.mono
    intro _ m' ⟨handed, hands, same⟩
    apply meets_bind
    apply meets_read
    apply meets_ite
    · exact fun cancelled => meets_pure (.cancelled hands same cancelled)
    intro _
    apply meets_bind
    apply meets_update
    refine meets_pure ⟨handed, true, ⟨hands.created, ?_, hands.responses, Or.inr ?_⟩, same⟩
    · intro cancelled
      rw [write_d]
      exact hands.cancelled cancelled
    · rw [write_d, reached, hands.response, complete]

theorem Completes.after {block : HeaderBlock} {before : ResourceResponse}
    (created : m.created ≤ m'.created)
    (cancelled : (m.jobs job).d.cancelled = true → (m'.jobs job).d.cancelled = true)
    (responses : m'.responses job = m.responses job)
    (completes : Completes platform job block before m' m'') :
    Completes platform job block before m m'' := by
  obtain ⟨handed, reached, fills, same⟩ := completes
  exact ⟨handed, reached, ⟨created.trans fills.created, fun before => fills.cancelled (cancelled before),
    responses ▸ fills.responses, fills.response⟩, same⟩

theorem meets_endOfBlock_completes (known : job < m.created) (totalSize : Nat) :
    Meets AnyEvent (fun _ => True) (endOfBlock platform job totalSize) m fun _ m' =>
      Completes platform job
        { lines := [], info := (m.jobs job).transfer.info, isSSL := (m.jobs job).d.isSSL }
        (m.jobs job).d.response m m' := by
  apply meets_bind
  apply meets_read
  apply meets_bind
  apply meets_update
  apply meets_bind
  apply meets_read
  rw [write_d]
  cases code : blockCode (m.jobs job).d.isSSL (m.jobs job).transfer.info with
  | none =>
    refine meets_pure ⟨[], true, ⟨Nat.le_refl _, ?_, (List.append_nil _).symm, Or.inr ?_⟩, Or.inl rfl⟩
    · rw [write_d]
      exact id
    · rw [write_d, passBlock, completeBlock]
      simp only [code, Option.isNone_none, true_or, if_true]
      rfl
  | some httpCode =>
    apply meets_bind
    apply meets_update
    generalize written : ((m.write job fun d => { d with response := { d.response with
      url := (m.jobs job).transfer.info.effectiveURL
      httpStatusCode := (m.jobs job).transfer.info.responseCode } }).write job fun d =>
        { d with
          response := (deriveResponse platform (m.jobs job).transfer.info httpCode d.response) }) =
        m₁
    have complete : (m₁.jobs job).d.response = completeBlock platform (m.jobs job).d.response
        { lines := [], info := (m.jobs job).transfer.info, isSSL := (m.jobs job).d.isSSL } := by
      rw [← written, write_d, write_d, completeBlock]
      simp only [code]
      rfl
    have kept : m₁.created = m.created ∧ m₁.responses job = m.responses job ∧
        (m₁.jobs job).d.cancelled = (m.jobs job).d.cancelled := by
      rw [← written, write_d, write_d]
      exact ⟨rfl, rfl, rfl⟩
    obtain ⟨created, responses, cancelled⟩ := kept
    have known₁ : job < m₁.created := created ▸ known
    apply meets_bind
    apply (meets_receiveChallenge_hands known₁ httpCode).mono
    intro _ m₂ hands
    have complete₂ := hands.response.trans complete
    apply (meets_announce_completes (Nat.lt_of_lt_of_le known₁ hands.created) code complete₂
      totalSize).mono
    intro _ m' completes
    apply completes.after (created ▸ hands.created)
    · exact fun before => hands.cancelled (cancelled.trans before)
    · rw [hands.responses, List.append_nil, responses]

/-- The blank line at the end of a block. -/
theorem meets_deliverBlank (known : job < m.created) (info : Info) {blank : List Byte}
    (ends : isBlank blank = true) :
    Meets AnyEvent (fun _ => True) (deliverLine platform job (info, blank)) m fun _ m' =>
      Completes platform job { lines := [], info, isSSL := (m.jobs job).d.isSSL }
          (m.jobs job).d.response m m' ∧
        ((m.jobs job).d.cancelled = true → m'.responses job = m.responses job) := by
  apply meets_bind
  apply meets_update
  generalize received : (m.change job fun handle =>
    { handle with transfer := handle.transfer.receive blank info }) = m₁
  have same : (m₁.jobs job).d = (m.jobs job).d ∧ (m₁.jobs job).transfer.info = info ∧
      m₁.created = m.created ∧ m₁.responses job = m.responses job := by
    rw [← received, change_jobs, if_pos rfl]
    exact ⟨rfl, rfl, rfl, rfl⟩
  obtain ⟨d, told, created, responses⟩ := same
  have known₁ : job < m₁.created := created ▸ known
  have after : ∀ {block before m'}, Completes platform job block before m₁ m' →
      Completes platform job block before m m' :=
    fun completes => completes.after created.ge (fun before => d ▸ before) responses
  apply meets_bind
  apply meets_bind
  apply meets_read
  apply meets_ite
  · exact fun cancelled => meets_pure (meets_pure
      ⟨after (.cancelled (.refl m₁) (Or.inl rfl) cancelled), fun _ => responses⟩)
  intro active
  rw [d] at active
  apply meets_bind
  apply (meets_notifyClient_quiet known₁ fun _ => rfl).mono
  intro _ m₂ hands
  apply meets_bind
  apply meets_read
  apply meets_ite
  · exact fun cancelled => meets_pure (meets_pure
      ⟨after (.cancelled hands (Or.inl rfl) cancelled), fun cancelled => absurd cancelled active⟩)
  intro _
  rw [if_pos ends]
  apply (meets_endOfBlock_completes (Nat.lt_of_lt_of_le known₁ hands.created) _).mono
  intro _ m' completes
  rw [hands.info, told, hands.ssl, hands.response, d] at completes
  exact meets_pure ⟨after (completes.after hands.created hands.cancelled
    (hands.responses.trans (List.append_nil _))), fun cancelled => absurd cancelled active⟩

/-- The lines of a block. -/
def deliverLines (platform : Platform) (job : Nat) : List (Info × List Byte) → Procedure Unit
  | [] => pure ()
  | line :: lines => do
    deliverLine platform job line
    deliverLines platform job lines

theorem meets_deliverLines (known : job < m.created) (lines : List (Info × List Byte))
    (filled : ∀ line ∈ lines, isBlank line.2 = false) :
    Meets AnyEvent (fun _ => True) (deliverLines platform job lines) m fun _ m' =>
      Fills job [] (receiveLines platform (m.jobs job).d.response lines) m m' ∧
        (m'.jobs job).d.isSSL = (m.jobs job).d.isSSL := by
  induction lines generalizing m with
  | nil => exact meets_pure ⟨⟨Nat.le_refl _, id, (List.append_nil _).symm, Or.inr rfl⟩, rfl⟩
  | cons line lines ih =>
    apply meets_bind
    apply (meets_deliverLine known (filled line List.mem_cons_self)).mono
    intro _ m₁ ⟨first, ssl₁⟩
    apply (ih (Nat.lt_of_lt_of_le known first.created)
      fun other member => filled other (List.mem_cons_of_mem _ member)).mono
    intro _ m₂ ⟨rest, ssl₂⟩
    refine ⟨⟨first.created.trans rest.created, fun before => rest.cancelled (first.cancelled before),
      ?_, ?_⟩, ssl₂.trans ssl₁⟩
    · rw [rest.responses, first.responses, List.append_nil]
    · rcases first.response with cancelled | response
      · exact Or.inl (rest.cancelled cancelled)
      · rw [receiveLines, List.foldl_cons, ← response]
        exact rest.response

/-- A whole block. -/
def deliverBlock (platform : Platform) (job : Nat) (block : HeaderBlock) : Procedure Unit := do
  deliverLines platform job block.lines
  deliverLine platform job (block.info, [13, 10])

/-- A block is received as `completeBlock` and `passBlock` say. -/
theorem meets_deliverBlock (known : job < m.created) {block : HeaderBlock}
    (filled : ∀ line ∈ block.lines, isBlank line.2 = false) :
    Meets AnyEvent (fun _ => True) (deliverBlock platform job block) m fun _ m' =>
      Completes platform job { block with isSSL := (m.jobs job).d.isSSL }
          (m.jobs job).d.response m m' ∧
        ((m.jobs job).d.cancelled = true → m'.responses job = m.responses job) := by
  apply meets_bind
  apply (meets_deliverLines known block.lines filled).mono
  intro _ m₁ ⟨lines, ssl⟩
  have kept : m₁.responses job = m.responses job := lines.responses.trans (List.append_nil _)
  apply (meets_deliverBlank (Nat.lt_of_lt_of_le known lines.created) block.info rfl).mono
  intro _ m' ⟨completes, silent⟩
  refine ⟨?_, fun cancelled => (silent (lines.cancelled cancelled)).trans kept⟩
  rcases lines.response with cancelled | response
  · obtain ⟨_, _, later, _⟩ := completes
    refine ⟨[], true, ⟨lines.created.trans later.created, fun _ => later.cancelled cancelled, ?_,
      Or.inl (later.cancelled cancelled)⟩, Or.inl rfl⟩
    rw [silent cancelled, kept, List.append_nil]
  · have completes' := completes.after lines.created lines.cancelled kept
    rw [ssl, response] at completes'
    exact completes'

/-- Blocks that differ only in what the job is at their end. -/
def HeaderBlock.Same (block block' : HeaderBlock) : Prop :=
  block'.lines = block.lines ∧ block'.info = block.info

def deliverBlocks (platform : Platform) (job : Nat) : List HeaderBlock → Procedure Unit
  | [] => pure ()
  | block :: blocks => do
    deliverBlock platform job block
    deliverBlocks platform job blocks

/-- The blocks of a transfer are received one after the other into one response. -/
theorem meets_deliverBlocks (known : job < m.created) (blocks : List HeaderBlock)
    (filled : ∀ block ∈ blocks, ∀ line ∈ block.lines, isBlank line.2 = false) :
    Meets AnyEvent (fun _ => True) (deliverBlocks platform job blocks) m fun _ m' =>
      m.created ≤ m'.created ∧ ∃ blocks', List.Forall₂ HeaderBlock.Same blocks blocks' ∧
        Holds job (passBlocks platform (m.jobs job).d.response blocks') m' := by
  suffices run : Meets AnyEvent (fun _ => True) (deliverBlocks platform job blocks) m fun _ m' =>
      (m.created ≤ m'.created ∧
        ((m.jobs job).d.cancelled = true → (m'.jobs job).d.cancelled = true)) ∧
      ∃ blocks', List.Forall₂ HeaderBlock.Same blocks blocks' ∧
        Holds job (passBlocks platform (m.jobs job).d.response blocks') m' from
    run.mono fun _ _ found => ⟨found.1.1, found.2⟩
  induction blocks generalizing m with
  | nil => exact meets_pure ⟨⟨Nat.le_refl _, id⟩, [], .nil, Or.inr rfl⟩
  | cons block blocks ih =>
    apply meets_bind
    apply (meets_deliverBlock known (filled block List.mem_cons_self)).mono
    intro _ m₁ ⟨⟨handed, reached, fills, _⟩, _⟩
    apply (ih (Nat.lt_of_lt_of_le known fills.created)
      fun other member => filled other (List.mem_cons_of_mem _ member)).mono
    intro _ m₂ ⟨⟨created, cancels⟩, blocks', same, holds⟩
    refine ⟨⟨fills.created.trans created, fun before => cancels (fills.cancelled before)⟩,
      { block with isSSL := (m.jobs job).d.isSSL, reached } :: blocks',
      .cons ⟨rfl, rfl⟩ same, ?_⟩
    rcases fills.response with cancelled | response
    · exact Or.inl (cancels cancelled)
    · rw [passBlocks, List.foldl_cons, ← response]
      exact holds

/-- What the client is handed at the end of the last block. -/
theorem meets_lastBlock (known : job < m.created) (blocks : List HeaderBlock) (last : HeaderBlock)
    (filled : ∀ block ∈ blocks ++ [last], ∀ line ∈ block.lines, isBlank line.2 = false) :
    Meets AnyEvent (fun _ => True) (do
      deliverBlocks platform job blocks
      let before ← read (·.responses job)
      deliverBlock platform job last
      return before) m fun before m' =>
        ∃ blocks' last', List.Forall₂ HeaderBlock.Same blocks blocks' ∧ last.Same last' ∧
          (m'.responses job = before ∨ m'.responses job = before ++
            [completeBlock platform (passBlocks platform (m.jobs job).d.response blocks') last']) := by
  apply meets_bind
  apply (meets_deliverBlocks known blocks fun block member =>
    filled block (List.mem_append_left _ member)).mono
  intro _ m₁ ⟨created, blocks', same, holds⟩
  apply meets_bind
  apply meets_read
  apply meets_bind
  apply (meets_deliverBlock (Nat.lt_of_lt_of_le known created)
    (filled last (List.mem_append_right _ (List.mem_singleton.mpr rfl)))).mono
  intro _ m₂ ⟨⟨handed, reached, fills, ends⟩, silent⟩
  refine meets_pure ⟨blocks', { last with isSSL := (m₁.jobs job).d.isSSL }, same, ⟨rfl, rfl⟩, ?_⟩
  rcases holds with cancelled | response
  · exact Or.inl (silent cancelled)
  · rw [fills.responses, ← response]
    rcases ends with rfl | rfl
    · exact Or.inl (List.append_nil _)
    · exact Or.inr rfl

end

theorem meets_lastBlock_pageBlock :
    Meets AnyEvent (fun _ => True) (do
      deliverBlocks examplePlatform 0 [redirectBlock]
      let before ← read (·.responses 0)
      deliverBlock examplePlatform 0 pageBlock
      return before) { created := 1 } fun before m' =>
        ∃ blocks' last', List.Forall₂ HeaderBlock.Same [redirectBlock] blocks' ∧ pageBlock.Same last' ∧
          (m'.responses 0 = before ∨ m'.responses 0 =
            before ++ [completeBlock examplePlatform (passBlocks examplePlatform {} blocks') last']) :=
  meets_lastBlock Nat.one_pos [redirectBlock] pageBlock (by decide)

end WkcBrowser.Network
