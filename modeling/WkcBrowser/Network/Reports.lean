import WkcBrowser.Network.Clients

/-! The calls of a client, seen from the life of its job. -/

namespace WkcBrowser.Network

open Wtf Lib.Interaction Program ResourceHandleManager
open Lib.Loop (Turn)

/-- The states the manager waits in. -/
def Accounted (platform : Platform) (m : ResourceHandleManager) : Prop :=
  ∃ finishing, Telling platform finishing m

theorem Telling.accounted {platform : Platform} {finishing : Option Nat} {m : ResourceHandleManager}
    (telling : Telling platform finishing m) : Accounted platform m :=
  ⟨finishing, telling⟩

section
variable {platform : Platform} {m m' : ResourceHandleManager} {finishing : Option Nat} {job : Nat}

theorem meets_notify {notice : Notice}
    (entered : Telling platform finishing (m.enter (.notice job notice (m.jobs job).transfer))) :
    Meets (Honoured platform) (Accounted platform) (notify platform job notice) m fun _ m' =>
      Telling platform finishing m' ∧
        Undisturbed (m.enter (.notice job notice (m.jobs job).transfer)) m' := by
  apply meets_bind
  apply meets_update
  apply meets_loop fun _ m' => Telling platform finishing m' ∧
    Undisturbed (m.enter (.notice job notice (m.jobs job).transfer)) m'
  · exact fun _ m' at_ => at_.1.accounted
  · intro _ m' ⟨telling, undisturbed⟩
    apply meets_bind
    apply meets_await telling.accounted
    intro event act accepted fine
    apply meets_ite
    · exact fun _ => meets_pure ⟨telling, undisturbed⟩
    · intro _
      apply meets_bind
      apply meets_update
      obtain ⟨telling', acted⟩ := clientAct_telling telling accepted fine
      exact meets_pure ⟨telling', undisturbed.trans acted⟩
  · exact ⟨entered, .refl _⟩

/-- The client of the job was called, if it has not let go of the job. -/
def Heard (job : Nat) (notice : Notice) (m m' : ResourceHandleManager) : Prop :=
  ∃ said, View.Undisturbed { m.view job with entries := m.entries job ++ said } (m'.view job) ∧
    ((m.jobs job).d.client = false ∧ said = [] ∨
      said = [.notice job notice (m.jobs job).transfer])

theorem Undisturbed.heard (isKnown : job < m.created) {notice : Notice}
    (undisturbed : Undisturbed (m.enter (.notice job notice (m.jobs job).transfer)) m') :
    Heard job notice m m' := by
  have own := undisturbed.jobs job isKnown
  have entered : (m.enter (.notice job notice (m.jobs job).transfer)).view job = { m.view job with
      entries := m.entries job ++ [.notice job notice (m.jobs job).transfer] } := view_enter_own rfl
  rw [entered] at own
  exact ⟨_, own, Or.inr rfl⟩

/-- A notice that does not end the load. -/
theorem meets_notifyClient (telling : Telling platform finishing m) (isKnown : job < m.created)
    {notice : Notice}
    (told : (m.jobs job).d.client = true → View.Told { m.view job with
      entries := m.entries job ++ [.notice job notice (m.jobs job).transfer] } platform
        (decide (finishing = some job))) :
    Meets (Honoured platform) (Accounted platform) (notifyClient platform job notice) m fun _ m' =>
      Telling platform finishing m' ∧ Heard job notice m m' := by
  apply meets_bind
  apply meets_read
  apply meets_ite
  · intro client
    apply (meets_notify (telling.enter isKnown rfl (fun _ _ => Iff.rfl) (told client))).mono
    exact fun _ m' found => ⟨found.1, found.2.heard isKnown⟩
  · intro gone
    refine meets_pure ⟨telling, [], ?_, Or.inl ⟨by simpa using gone, rfl⟩⟩
    rw [List.append_nil]
    exact .refl _

end

end WkcBrowser.Network

/-! What curl reports of a transfer reaches the client of its job in order, as long as the client and
curl keep to the events of `Honoured`. -/

namespace WkcBrowser.Network

open Wtf Lib.Interaction Program ResourceHandleManager
open Lib.Loop (Turn)

section
variable {platform : Platform} {m m' : ResourceHandleManager} {job : Nat}

/-- Curl reports about the transfer of a running job. -/
structure During (platform : Platform) (job : Nat) (transfer : Transfer)
    (m : ResourceHandleManager) : Prop where
  telling : Telling platform none m
  runs : job ∈ m.runningJobList
  transfer : (m.jobs job).transfer = transfer

/-- A notice that is about neither data nor the end of a response nor of the load. -/
def Notice.plain : Notice → Bool
  | .didReceiveResponse _ | .willReceiveData _ | .cannotShowURL
  | .didReceiveAuthenticationChallenge _ => true
  | _ => false

theorem Notice.plain_entry {notice : Notice} (plain : notice.plain = true) (job : Nat)
    (transfer : Transfer) : (Entry.notice job notice transfer).dataOf = none ∧
      (Entry.notice job notice transfer).passedOf = none ∧
      (Entry.notice job notice transfer).isTerminal = false := by
  cases notice <;> simp_all [Notice.plain, Entry.dataOf, Entry.passedOf, Entry.isTerminal]

/-- Curl has not gone on from the present response. -/
def View.Current (v : View) : Prop := ∀ entry ∈ v.entries, entry.passedOf ≠ some v.transfer.blocks

variable {transfer : Transfer}

theorem During.isKnown (during : During platform job transfer m) : job < m.created :=
  Ledger.Sound.known during.telling.inOrder job (Or.inr (Or.inl during.runs))

theorem During.placed (during : During platform job transfer m) :
    (m.view job).scheduled = false ∧ (m.view job).running = true ∧
      (m.view job).starting = false ∧ (m.view job).held = true := by
  have sound : m.ledger.Sound := during.telling.inOrder
  have running : (m.view job).running = true := decide_eq_true during.runs
  refine ⟨decide_eq_false fun waits => sound.apart job waits during.runs, running,
    decide_eq_false fun starts => (sound.started job starts).2 during.runs, ?_⟩
  simp [View.held, running]

theorem During.told (during : During platform job transfer m) :
    (m.view job).Told platform false :=
  during.telling.told job during.isKnown

theorem Heard.during {notice : Notice} (heard : Heard job notice m m')
    (during : During platform job transfer m) (telling : Telling platform none m') :
    During platform job transfer m' := by
  obtain ⟨said, undisturbed, -⟩ := heard
  have running : (m'.view job).running = true := undisturbed.running.trans during.placed.2.1
  exact ⟨telling, of_decide_eq_true running, undisturbed.transfer.trans during.transfer⟩

section
variable {notice : Notice} (plain : notice.plain = true)
include plain

theorem Heard.fresh (heard : Heard job notice m m') (fresh : (m.view job).Fresh) :
    (m'.view job).Fresh := by
  obtain ⟨said, undisturbed, ⟨-, rfl⟩ | rfl⟩ := heard
  · apply undisturbed.fresh
    rw [List.append_nil]
    exact fresh
  · exact undisturbed.fresh (fresh.append (Notice.plain_entry plain job _).1)

theorem Heard.current (heard : Heard job notice m m') (current : (m.view job).Current) :
    (m'.view job).Current := by
  obtain ⟨said, undisturbed, silent⟩ := heard
  obtain ⟨acts, entries, isAct⟩ := undisturbed.acts
  intro entry member
  rw [undisturbed.transfer]
  rw [entries] at member
  rcases List.mem_append.mp member with before | act
  · rcases List.mem_append.mp before with old | new
    · exact current entry old
    · rcases silent with ⟨-, rfl⟩ | rfl
      · cases new
      · rw [List.mem_singleton.mp new, (Notice.plain_entry plain job _).2.1]
        simp
  · rw [(Entry.silent_of_act (isAct entry act)).2.2]
    simp

/-- A plain notice to the client of a running job. -/
theorem During.notifyClient (during : During platform job transfer m)
    (active : (m.jobs job).d.cancelled = false) :
    Meets (Honoured platform) (Accounted platform) (notifyClient platform job notice) m fun _ m' =>
      During platform job transfer m' ∧ Heard job notice m m' := by
  obtain ⟨data, passed, terminal⟩ := Notice.plain_entry plain job (m.jobs job).transfer
  apply (meets_notifyClient during.telling during.isKnown fun _ => ?_).mono
  · exact fun _ m' found => ⟨found.2.during during found.1, found.2⟩
  · exact during.told.notice during.placed.2.2.2 active data passed terminal rfl rfl

end

/-- A write to the internal part of a running job that none of this depends on. -/
theorem During.write (during : During platform job transfer m)
    {f : ResourceHandleInternal → ResourceHandleInternal}
    (keeps : ∀ d, (f d).handle = d.handle ∧ (f d).client = d.client ∧
      (f d).cancelled = d.cancelled ∧ (f d).webChallenge = d.webChallenge ∧
      (f d).doAuthChallenge = d.doAuthChallenge)
    (fired : (f (m.jobs job).d).response.responseFired = (m.jobs job).d.response.responseFired)
    (ssl : (m.jobs job).d.doAuthChallenge = true → (f (m.jobs job).d).isSSL = (m.jobs job).d.isSSL) :
    During platform job transfer (m.write job f) := by
  obtain ⟨-, client, cancelled, challenge, answer⟩ := keeps (m.jobs job).d
  obtain ⟨out, -, apart, -⟩ := during.placed
  refine ⟨during.telling.write during.isKnown (fun d => (keeps d).1) ?_, during.runs, ?_⟩
  · apply during.told.write client cancelled fired challenge answer _ ssl
    rintro (waits | starts)
    · exact absurd (out.symm.trans waits) (by decide)
    · exact absurd (apart.symm.trans starts) (by decide)
  · rw [ResourceHandleManager.write, change_jobs, if_pos rfl]
    exact during.transfer

theorem fresh_write {f : ResourceHandleInternal → ResourceHandleInternal}
    (fresh : (m.view job).Fresh) : ((m.write job f).view job).Fresh := by
  rw [view_write, if_pos rfl]
  exact fresh

theorem current_write {f : ResourceHandleInternal → ResourceHandleInternal}
    (current : (m.view job).Current) : ((m.write job f).view job).Current := by
  rw [view_write, if_pos rfl]
  exact current

/-- The response was given to the client. -/
theorem During.setFired {response : ResourceResponse} {before : ResourceHandleManager}
    (heard : Heard job (.didReceiveResponse response) before m)
    (during : During platform job transfer m) (wasKnown : During platform job transfer before) :
    During platform job transfer
      (m.write job fun d => { d with response := { d.response with responseFired := true } }) := by
  have responded : (m.view job).has Entry.isResponse ∨ (m.view job).has Entry.isRelease := by
    obtain ⟨said, undisturbed, ⟨gone, -⟩ | rfl⟩ := heard
    · obtain ⟨acts, entries, -⟩ := undisturbed.acts
      obtain ⟨entry, member, isRelease⟩ := wasKnown.told.released.mp gone
      refine Or.inr ⟨entry, ?_, isRelease⟩
      rw [entries]
      exact List.mem_append_left _ (List.mem_append_left _ member)
    · exact Or.inl (undisturbed.has (View.has_append.mpr (Or.inr rfl)))
  refine ⟨during.telling.write during.isKnown (fun _ => rfl) ?_, during.runs, ?_⟩
  · exact during.told.setFired responded _
  · rw [ResourceHandleManager.write, change_jobs, if_pos rfl]
    exact during.transfer

/-- A write to the response. -/
theorem meets_writeResponse (during : During platform job transfer m)
    {f : ResourceHandleInternal → ResourceHandleInternal} {post : Unit → ResourceHandleManager → Prop}
    (keeps : ∀ d, ∃ response, f d = { d with response } ∧
      response.responseFired = d.response.responseFired)
    (next : ∀ m' response, During platform job transfer m' →
      (m'.jobs job).d = { (m.jobs job).d with response } →
      ((m.view job).Fresh → (m'.view job).Fresh) →
      ((m.view job).Current → (m'.view job).Current) → post () m') :
    Meets (Honoured platform) (Accounted platform) (Network.write job f) m post := by
  apply meets_update
  obtain ⟨response, same, fired⟩ := keeps (m.jobs job).d
  refine next _ response (during.write (fun d => ?_) ?_ fun _ => ?_) ?_ fresh_write current_write
  · obtain ⟨response, same, -⟩ := keeps d
    simp [same]
  · rw [same]
    exact fired
  · rw [same]
  · rw [write_d, same]

theorem meets_handleLocalReceiveResponse (during : During platform job transfer m)
    (active : (m.jobs job).d.cancelled = false) :
    Meets (Honoured platform) (Accounted platform) (handleLocalReceiveResponse platform job) m
      fun _ m' => During platform job transfer m' ∧
        ((m.view job).Current → (m'.view job).Current) ∧
        ((m'.jobs job).d.cancelled = false → (m'.jobs job).d.response.responseFired = true) := by
  apply meets_bind
  apply meets_read
  apply meets_bind
  apply meets_writeResponse during
  · exact fun d => ⟨_, rfl, rfl⟩
  intro m₁ response₁ during₁ same₁ _ current₁
  apply meets_bind
  apply meets_writeResponse during₁
  · intro d
    dsimp only
    split
    · exact ⟨_, rfl, rfl⟩
    · exact ⟨d.response, rfl, rfl⟩
  intro m₂ response₂ during₂ same₂ _ current₂
  have active₂ : (m₂.jobs job).d.cancelled = false := by rw [same₂, same₁]; exact active
  apply meets_bind
  apply meets_read
  apply meets_bind
  have plain : (Notice.didReceiveResponse (m₂.jobs job).d.response).plain = true := rfl
  apply (during₂.notifyClient plain active₂).mono
  intro _ m₃ ⟨during₃, heard⟩
  have current₃ : (m.view job).Current → (m₃.view job).Current :=
    fun current => heard.current plain (current₂ (current₁ current))
  apply meets_bind
  apply meets_read
  apply meets_ite
  · intro cancelled
    refine meets_pure ⟨during₃, current₃, fun active => ?_⟩
    rw [cancelled] at active
    cases active
  · intro _
    apply meets_update
    exact ⟨during₃.setFired heard during₂, fun current => current_write (current₃ current),
      fun _ => by rw [write_d]⟩

/-- A client that lets go of a job is gone for good. -/
theorem Heard.client {notice : Notice} (heard : Heard job notice m m')
    (during : During platform job transfer m) (during' : During platform job transfer m')
    (client : (m'.jobs job).d.client = true) :
    (m.jobs job).d.client = true ∧ View.Undisturbed { m.view job with
      entries := m.entries job ++ [.notice job notice (m.jobs job).transfer] } (m'.view job) := by
  have kept : (m.view job).d.client = true := by
    by_contra gone
    have release := during.told.released.mp (by simpa using gone)
    obtain ⟨said, undisturbed, -⟩ := heard
    obtain ⟨acts, entries, -⟩ := undisturbed.acts
    obtain ⟨entry, member, isRelease⟩ := release
    have release' : (m'.view job).has Entry.isRelease := by
      refine ⟨entry, ?_, isRelease⟩
      rw [entries]
      exact List.mem_append_left _ (List.mem_append_left _ member)
    have gone' := during'.told.released.mpr release'
    exact absurd (client.symm.trans gone') (by decide)
  obtain ⟨said, undisturbed, ⟨gone, -⟩ | rfl⟩ := heard
  · exact absurd (gone.symm.trans kept) (by decide)
  · exact ⟨kept, undisturbed⟩

theorem meets_deliverData (during : During platform job transfer m) (data : List Byte)
    (active : (m.jobs job).d.cancelled = false) (silent : (m.jobs job).d.doAuthChallenge = false)
    (ended : transfer.ended = true) (fired : (m.jobs job).d.response.responseFired = true)
    (current : (m.view job).Current) :
    Meets (Honoured platform) (Accounted platform) (deliverData platform job data) m
      fun _ m' => During platform job transfer m' := by
  have plain : (Notice.willReceiveData data.length).plain = true := rfl
  apply meets_bind
  apply (during.notifyClient plain active).mono
  intro _ m₁ ⟨during₁, heard₁⟩
  apply meets_bind
  apply meets_read
  apply meets_ite
  · exact fun _ => meets_pure during₁
  · intro active₁
    simp only [Bool.not_eq_true] at active₁
    apply meets_bind
    apply (meets_notifyClient during₁.telling during₁.isKnown fun client => ?_).mono
    · intro _ m₂ ⟨telling₂, heard₂⟩
      have during₂ := heard₂.during during₁ telling₂
      apply meets_bind
      apply meets_read
      exact meets_ite (fun _ => meets_pure during₂) fun _ => meets_pure during₂
    · obtain ⟨-, undisturbed⟩ := heard₁.client during during₁ client
      have awaits : View.AwaitsData { m.view job with
          entries := m.entries job ++
            [.notice job (.willReceiveData data.length) (m.jobs job).transfer] } := by
        refine ⟨?_, ?_, fired⟩
        · simp [Entry.isNotice, Entry.announcesData]
        · change (m.jobs job).transfer.ended = true
          rw [during.transfer, ended]
      have silent₁ := undisturbed.unanswered awaits during.placed.2.1 silent
      have responded : (m₁.view job).has Entry.isResponse := by
        refine (during₁.told.fired ?_).resolve_right fun release => ?_
        · rw [undisturbed.response]
          exact fired
        · have gone := during₁.told.released.mpr release
          exact absurd (client.symm.trans gone) (by decide)
      have ended₁ : (m₁.view job).transfer.ended = true := by
        change (m₁.jobs job).transfer.ended = true
        rw [during₁.transfer, ended]
      exact during₁.told.noticeData during₁.placed.2.2.2 active₁ responded silent₁ ended₁
        (heard₁.current plain current) job data

theorem meets_writeCallback (during : During platform job transfer m) (data : List Byte)
    (ended : transfer.ended = true)
    (current : (m.jobs job).d.cancelled = false → (m.view job).Current) :
    Meets (Honoured platform) (Accounted platform) (writeCallback platform job data) m
      fun _ m' => During platform job transfer m' := by
  apply meets_bind
  apply meets_read
  apply meets_ite
  · exact fun _ => meets_pure during
  intro silent
  simp only [Bool.not_eq_true] at silent
  apply meets_ite
  · exact fun _ => meets_pure during
  intro active
  simp only [Bool.not_eq_true] at active
  apply meets_bind
  apply meets_read
  apply meets_ite
  · exact fun _ => meets_pure during
  intro _
  apply meets_ite
  · exact fun _ => meets_pure during
  intro _
  apply meets_ite
  · intro _
    apply meets_bind
    apply (meets_handleLocalReceiveResponse during active).mono
    intro _ m₁ ⟨during₁, current₁, fired₁⟩
    apply meets_bind
    apply meets_read
    apply meets_ite
    · exact fun _ => meets_pure during₁
    intro silent₁
    simp only [Bool.not_eq_true] at silent₁
    apply meets_bind
    apply meets_read
    apply meets_ite
    · exact fun _ => meets_pure during₁
    intro active₁
    simp only [Bool.not_eq_true] at active₁
    exact meets_deliverData during₁ data active₁ silent₁ ended (fired₁ active₁)
      (current₁ (current active))
  · intro fired
    simp only [Bool.not_eq_true', Bool.not_eq_false] at fired
    exact meets_deliverData during data active silent ended fired (current active)

/-- The blank line of a header block is handled, with no data of the response before it. -/
structure InBlock (platform : Platform) (job : Nat) (transfer : Transfer) (httpCode : Nat)
    (m : ResourceHandleManager) : Prop where
  during : During platform job transfer m
  fresh : (m.view job).Fresh
  code : blockCode (m.jobs job).d.isSSL transfer.info = some httpCode

theorem challengeCode_of_blockCode {isSSL : Bool} {info : Info} {code : Nat}
    (ends : blockCode isSSL info = some code) (nonzero : code ≠ 0) :
    challengeCode isSSL info = code := by
  unfold blockCode at ends
  unfold challengeCode
  split
  · rw [if_pos ‹_›] at ends
    split_ifs at ends <;> simp_all
  · rw [if_neg ‹_›] at ends
    split_ifs at ends
    exact Option.some.inj ends

variable {httpCode : Nat}

theorem InBlock.notifyClient {notice : Notice} (plain : notice.plain = true)
    (at_ : InBlock platform job transfer httpCode m) (active : (m.jobs job).d.cancelled = false) :
    Meets (Honoured platform) (Accounted platform) (notifyClient platform job notice) m fun _ m' =>
      InBlock platform job transfer httpCode m' ∧ Heard job notice m m' := by
  apply (at_.during.notifyClient plain active).mono
  intro _ m' ⟨during, heard⟩
  refine ⟨⟨during, heard.fresh plain at_.fresh, ?_⟩, heard⟩
  obtain ⟨said, undisturbed, -⟩ := heard
  have ssl : (m'.jobs job).d.isSSL = (m.jobs job).d.isSSL := undisturbed.ssl
  rw [ssl]
  exact at_.code

/-- A challenge is received. -/
theorem InBlock.challenge (at_ : InBlock platform job transfer httpCode m)
    (challenge : AuthenticationChallenge) :
    InBlock platform job transfer httpCode
      (m.write job fun d => { d with webChallenge := some challenge }) := by
  obtain ⟨out, -, apart, -⟩ := at_.during.placed
  refine ⟨⟨at_.during.telling.write at_.during.isKnown (fun _ => rfl) ?_, at_.during.runs, ?_⟩,
    fresh_write at_.fresh, ?_⟩
  · exact at_.during.told.challenge ⟨out, apart⟩ challenge
  · rw [ResourceHandleManager.write, change_jobs, if_pos rfl]
    exact at_.during.transfer
  · rw [write_d]
    exact at_.code

theorem meets_didReceiveAuthenticationChallenge (at_ : InBlock platform job transfer httpCode m)
    (active : (m.jobs job).d.cancelled = false) :
    Meets (Honoured platform) (Accounted platform) (didReceiveAuthenticationChallenge platform job)
      m fun _ m' => InBlock platform job transfer httpCode m' := by
  apply meets_bind
  apply meets_read
  apply meets_ite
  · exact fun _ => meets_pure at_
  intro _
  apply meets_bind
  apply meets_read
  apply meets_bind
  apply meets_update
  apply meets_ite
  · intro _
    refine (InBlock.notifyClient rfl (at_.challenge _) ?_).mono fun _ _ found => found.1
    rw [write_d]
    exact active
  · exact fun _ => meets_pure (at_.challenge _)

/-- The credentials that are set answer a challenge of the proxy at once. -/
theorem InBlock.answer (at_ : InBlock platform job transfer 407 m)
    (credentials : m.hasProxyUserPass = true) :
    InBlock platform job transfer 407 (m.doAuthChallenge job) := by
  have repeatable : (m.view job).Repeatable := by
    refine Or.inr ⟨?_, at_.during.telling.credentials credentials⟩
    change challengeCode (m.jobs job).d.isSSL (m.jobs job).transfer.info = 407
    rw [at_.during.transfer]
    exact challengeCode_of_blockCode at_.code (by decide)
  have telling := telling_doAuthChallenge at_.during.telling at_.during.isKnown fun _ _ =>
    ⟨repeatable, at_.fresh, at_.during.told.pending at_.during.placed.2.2.2 rfl⟩
  revert telling
  unfold ResourceHandleManager.doAuthChallenge
  intro telling
  split
  · exact at_
  · rw [if_neg ‹_›] at telling
    refine ⟨⟨telling, at_.during.runs, ?_⟩, fresh_write at_.fresh, ?_⟩
    · rw [ResourceHandleManager.write, change_jobs, if_pos rfl]
      exact at_.during.transfer
    · rw [write_d]
      exact at_.code

theorem meets_didReceiveProxyAuthChallenge (at_ : InBlock platform job transfer 407 m)
    (active : (m.jobs job).d.cancelled = false) :
    Meets (Honoured platform) (Accounted platform) (didReceiveProxyAuthChallenge platform job) m
      fun _ m' => InBlock platform job transfer 407 m' := by
  apply meets_bind
  apply meets_read
  apply meets_ite
  · exact fun _ => meets_pure at_
  intro _
  apply meets_bind
  apply meets_read
  apply meets_bind
  apply meets_read
  apply meets_ite
  · exact fun _ => meets_pure at_
  intro _
  apply meets_bind
  apply meets_read
  apply meets_ite
  · exact fun _ => meets_pure at_
  intro _
  apply meets_bind
  apply meets_update
  apply meets_ite
  · intro _
    apply meets_bind
    apply meets_read
    apply meets_ite
    · exact fun credentials => meets_update ((at_.challenge _).answer credentials)
    · intro _
      refine (InBlock.notifyClient rfl (at_.challenge _) ?_).mono fun _ _ found => found.1
      rw [write_d]
      exact active
  · exact fun _ => meets_pure (at_.challenge _)

theorem meets_receiveChallenge (at_ : InBlock platform job transfer httpCode m)
    (active : (m.jobs job).d.cancelled = false) :
    Meets (Honoured platform) (Accounted platform) (receiveChallenge platform job httpCode) m
      fun _ m' => InBlock platform job transfer httpCode m' := by
  apply meets_bind
  apply meets_read
  apply meets_ite
  · intro ⟨server, _⟩
    apply meets_bind
    apply (meets_didReceiveAuthenticationChallenge at_ active).mono
    intro _ m' at'
    apply meets_bind
    apply meets_read
    rw [if_neg (by simp [server])]
    exact meets_pure at'
  · intro _
    apply meets_bind
    apply meets_read
    apply meets_ite
    · rintro ⟨rfl, _⟩
      exact meets_didReceiveProxyAuthChallenge at_ active
    · exact fun _ => meets_pure at_

theorem clearRedirect_responseFired (response : ResourceResponse) :
    (clearRedirect platform response).responseFired = response.responseFired := by
  unfold clearRedirect
  dsimp only
  split <;> rfl

theorem meets_followRedirect (at_ : InBlock platform job transfer httpCode m) (location : Text)
    (totalSize : Nat) (active : (m.jobs job).d.cancelled = false)
    (redirects : 300 ≤ httpCode ∧ httpCode < 400) :
    Meets (Honoured platform) (Accounted platform)
      (followRedirect platform job location httpCode totalSize) m
      fun _ m' => During platform job transfer m' := by
  apply meets_bind
  apply meets_read
  apply meets_bind
  apply (meets_notifyClient at_.during.telling at_.during.isKnown fun _ => ?_).mono
  · intro _ m' ⟨telling, heard⟩
    have during := heard.during at_.during telling
    apply meets_bind
    apply meets_read
    apply meets_ite
    · exact fun _ => meets_pure during
    intro _
    apply meets_bind
    apply meets_update
    refine meets_pure (during.write (fun _ => ⟨rfl, rfl, rfl, rfl, rfl⟩)
      (clearRedirect_responseFired _) fun answer => ?_)
    -- a redirect is no challenge, so that none is answered
    obtain ⟨said, undisturbed, -⟩ := heard
    have ssl : (m'.jobs job).d.isSSL = (m.jobs job).d.isSSL := undisturbed.ssl
    have code := challengeCode_of_blockCode at_.code (by omega)
    rw [← ssl, ← during.transfer] at code
    obtain ⟨-, repeatable, -⟩ := during.told.answered during.placed.2.1 answer
    rcases repeatable with server | ⟨proxy, -⟩
    · have same : httpCode = 401 := code.symm.trans server
      omega
    · have same : httpCode = 407 := code.symm.trans proxy
      omega
  · obtain ⟨out, -, apart, held⟩ := at_.during.placed
    exact at_.during.told.noticeRedirect held ⟨out, apart⟩ active at_.fresh job _ _

theorem meets_announce (at_ : InBlock platform job transfer httpCode m) (totalSize : Nat) :
    Meets (Honoured platform) (Accounted platform) (announce platform job httpCode totalSize) m
      fun _ m' => During platform job transfer m' := by
  apply meets_bind
  apply meets_read
  apply meets_ite
  · exact fun _ => meets_pure at_.during
  intro active
  simp only [Bool.not_eq_true] at active
  apply meets_bind
  apply meets_read
  apply meets_ite
  · exact fun _ => meets_pure at_.during
  intro _
  apply meets_bind
  apply meets_read
  apply meets_ite
  · exact fun redirects => meets_followRedirect at_ _ totalSize active redirects.1
  intro _
  have plain : (Notice.didReceiveResponse (m.jobs job).d.response).plain = true := rfl
  apply meets_bind
  apply meets_read
  apply meets_bind
  apply (at_.during.notifyClient plain active).mono
  intro _ m' ⟨during, heard⟩
  apply meets_bind
  apply meets_read
  apply meets_ite
  · exact fun _ => meets_pure during
  · intro _
    apply meets_bind
    exact meets_update (meets_pure (during.setFired heard at_.during))

theorem meets_endOfBlock (during : During platform job transfer m) (fresh : (m.view job).Fresh)
    (totalSize : Nat) (active : (m.jobs job).d.cancelled = false) :
    Meets (Honoured platform) (Accounted platform) (endOfBlock platform job totalSize) m
      fun _ m' => During platform job transfer m' := by
  apply meets_bind
  apply meets_read
  apply meets_bind
  apply meets_writeResponse during
  · exact fun d => ⟨_, rfl, rfl⟩
  intro m₁ response₁ during₁ same₁ fresh₁ _
  apply meets_bind
  apply meets_read
  cases code : blockCode (m₁.jobs job).d.isSSL (m.jobs job).transfer.info with
  | none => exact meets_pure during₁
  | some httpCode =>
    apply meets_bind
    apply meets_writeResponse during₁
    · exact fun d => ⟨_, rfl, rfl⟩
    intro m₂ response₂ during₂ same₂ fresh₂ _
    have at_ : InBlock platform job transfer httpCode m₂ := by
      refine ⟨during₂, fresh₂ (fresh₁ fresh), ?_⟩
      rw [same₂, ← during.transfer]
      exact code
    have active₂ : (m₂.jobs job).d.cancelled = false := by rw [same₂, same₁]; exact active
    apply meets_bind
    apply (meets_receiveChallenge at_ active₂).mono
    exact fun _ m₃ at₃ => meets_announce at₃ totalSize

theorem headerLine_responseFired (info : Info) (header : Text) (response : ResourceResponse) :
    (headerLine platform info header response).responseFired = response.responseFired := by
  unfold headerLine
  split
  · dsimp only
    split_ifs <;> rfl
  · split
    · split <;> rfl
    · rfl

theorem meets_headerCallback (during : During platform job transfer m) (fresh : (m.view job).Fresh)
    (line : List Byte) :
    Meets (Honoured platform) (Accounted platform) (headerCallback platform job line) m
      fun _ m' => During platform job transfer m' := by
  apply meets_bind
  apply meets_read
  apply meets_ite
  · exact fun _ => meets_pure during
  intro active
  simp only [Bool.not_eq_true] at active
  have plain : (Notice.willReceiveData line.length).plain = true := rfl
  apply meets_bind
  apply (during.notifyClient plain active).mono
  intro _ m₁ ⟨during₁, heard₁⟩
  apply meets_bind
  apply meets_read
  apply meets_ite
  · exact fun _ => meets_pure during₁
  intro active₁
  simp only [Bool.not_eq_true] at active₁
  apply meets_ite
  · exact fun _ => meets_endOfBlock during₁ (heard₁.fresh plain fresh) _ active₁
  · intro _
    apply meets_bind
    apply meets_read
    apply meets_bind
    apply meets_writeResponse during₁
    · exact fun d => ⟨_, rfl, headerLine_responseFired _ _ _⟩
    · exact fun m₂ _ during₂ _ _ _ => meets_pure during₂

end

end WkcBrowser.Network
