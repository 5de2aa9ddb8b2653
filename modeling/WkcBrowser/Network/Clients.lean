import WkcBrowser.Network.Views

/-! What clients do, seen from the lives of the jobs, and under which events every load is told its
end. -/

namespace WkcBrowser.Network

open Wtf Lib.Interaction Program ResourceHandleManager
open Lib.Loop (Turn)

/-- The challenge of a running job is answered in time: the present response is the challenge, and
neither data of it nor the end of the load was given to the client. -/
def View.Answerable (v : View) : Prop :=
  v.running = true → v.Repeatable ∧ v.Fresh ∧ v.terminals = 0 ∧ ¬v.AwaitsData

/-- The client of the job that is started has let go of it. -/
def Dismissed (m : ResourceHandleManager) : Prop :=
  ∀ job, m.starting = some job → (m.jobs job).d.client = false

instance (v : View) : Decidable v.AwaitsData :=
  inferInstanceAs (Decidable (_ ∧ _))

instance (v : View) : Decidable v.Answerable :=
  inferInstanceAs (Decidable (_ → _))

instance (m : ResourceHandleManager) : Decidable (Dismissed m) :=
  decidable_of_iff (m.starting.all fun job => !(m.jobs job).d.client) (by
    cases starts : m.starting <;> simp [Dismissed, starts])

/-- The events under which every load is told its end. -/
def Honoured (platform : Platform) (m : ResourceHandleManager) : Event → Prop
  | .add request => Showable platform request.url
  | .receivedCredential job challenge _ =>
    (m.jobs job).d.webChallenge = some challenge → (m.view job).Answerable
  | .receivedProxyCredential job _ =>
    m.proxy ≠ [] ∧ ((m.jobs job).d.webChallenge.isSome = true → (m.view job).Answerable)
  | .setProxyInfo .. => ∀ job < m.created, (m.view job).held = true → (m.view job).Settled
  | .easyInit false => Dismissed m
  | .multiAdd (.error _) => Dismissed m
  | .header job line info =>
    (m.jobs job).d.doAuthChallenge = true →
      View.Repeatable { m.view job with transfer := (m.jobs job).transfer.receive line info }
  | .body job _ =>
    (m.jobs job).d.cancelled = false → ∀ entry ∈ m.entries job, entry.isNotice = true →
      entry.passedOf ≠ some (m.jobs job).transfer.blocks
  | _ => True

instance (platform : Platform) (url : Text) : Decidable (Showable platform url) :=
  inferInstanceAs (Decidable (_ → _))

instance (platform : Platform) (m : ResourceHandleManager) (event : Event) :
    Decidable (Honoured platform m event) :=
  match event with
  | .add request => inferInstanceAs (Decidable (Showable platform request.url))
  | .receivedCredential .. => inferInstanceAs (Decidable (_ → View.Answerable _))
  | .receivedProxyCredential .. => inferInstanceAs (Decidable (_ ∧ (_ → View.Answerable _)))
  | .setProxyInfo .. =>
    inferInstanceAs (Decidable (∀ job < m.created, (m.view job).held = true → (m.view job).Settled))
  | .easyInit false | .multiAdd (.error _) => inferInstanceAs (Decidable (Dismissed m))
  | .header .. => inferInstanceAs (Decidable (_ → View.Repeatable _))
  | .body .. => inferInstanceAs (Decidable (_ → ∀ entry ∈ m.entries _, _ → _ ≠ _))
  | .easyInit true | .multiAdd .ok | .multiAdd .callMultiPerform | .cancel _ | .releaseClient _
  | .receivedRequestToContinueWithoutCredential .. | .leave | .timer | .setMaxTCPConnections _
  | .clearCookies | .finished .. | .performed => inferInstanceAs (Decidable True)

section
variable {platform : Platform} {m : ResourceHandleManager} {finishing : Option Nat} {job : Nat}

/-- A job that was just added. -/
theorem View.Told.new {v : View} (entries : v.entries = []) (scheduled : v.scheduled = true)
    (placed : v.running = false ∧ v.starting = false) (client : v.d.client = true)
    (active : v.d.cancelled = false) (fired : v.d.response.responseFired = false)
    (challenge : v.d.webChallenge = none) (answer : v.d.doAuthChallenge = false)
    (shown : Showable platform v.d.request.url) (transfer : v.transfer = {}) :
    v.Told platform false := by
  constructor
  · rw [entries]
    constructor <;> simp
  · simp [fired]
  · simp [client, View.has, entries]
  · simp [View.has, entries]
  · simp [placed]
  · exact fun _ => active
  · exact fun _ => shown
  · exact fun _ => ⟨challenge, answer⟩
  · simp [transfer, entries]
  · simp [entries]
  · simp [entries]
  · simp [entries]
  · simp [placed]
  · simp [View.terminals, entries]
  · simp
  · simp [View.held, scheduled]

/-- `add` makes a handle for the new job and leaves the others alone. -/
theorem add_jobs (platform : Platform) (m : ResourceHandleManager) (request : ResourceRequest) :
    ∃ atFirst,
    (m.add platform request).jobs = Function.update m.jobs m.created
      { d := { request, isJSRequestatFirst := atFirst }, refs := 1 } ∧
    (m.add platform request).history = m.history ∧ (m.add platform request).proxy = m.proxy ∧
    (m.add platform request).hasProxyUserPass = m.hasProxyUserPass := by
  unfold add appendScheduledJob
  dsimp only
  generalize created : ({ m with
      created := m.created + 1
      jobs := Function.update m.jobs m.created { d := { request } } } :
      ResourceHandleManager).ref m.created = m'
  have jobs : m'.jobs = Function.update m.jobs m.created { d := { request }, refs := 1 } := by
    rw [← created]
    simp [ref, change]
  have same : m'.history = m.history ∧ m'.proxy = m.proxy ∧
      m'.hasProxyUserPass = m.hasProxyUserPass := by
    rw [← created]
    exact ⟨rfl, rfl, rfl⟩
  have script : (m'.write m.created fun d => { d with isJSRequestatFirst := true }).jobs =
      Function.update m.jobs m.created
        { d := { request, isJSRequestatFirst := true }, refs := 1 } := by
    simp [ResourceHandleManager.write, change, jobs]
  split_ifs
  · exact ⟨true, script, same⟩
  · exact ⟨true, script, same⟩
  · exact ⟨false, jobs, same⟩
  · exact ⟨false, jobs, same⟩

theorem telling_add (telling : Telling platform finishing m) {request : ResourceRequest}
    (shown : Showable platform request.url) :
    Telling platform finishing (m.add platform request) ∧
      Undisturbed m (m.add platform request) := by
  have sound : m.ledger.Sound := telling.inOrder
  have ledger := m.ledger_add platform request
  have inOrder : InOrder (m.add platform request) := by
    rw [InOrder, ledger]
    exact Ledger.Sound.submit sound
  have created : (m.add platform request).created = m.created + 1 :=
    congrArg Ledger.created ledger
  have scheduled : (m.add platform request).scheduledJobList = m.scheduledJobList ++ [m.created] :=
    congrArg Ledger.scheduled ledger
  have running : (m.add platform request).runningJobList = m.runningJobList :=
    congrArg Ledger.running ledger
  have starting : (m.add platform request).starting = m.starting := congrArg Ledger.starting ledger
  have multi : (m.add platform request).multi = m.multi := congrArg Ledger.multi ledger
  obtain ⟨atFirst, jobs, history, proxy, hasCredentials⟩ := add_jobs platform m request
  have others : ∀ other < m.created, (m.add platform request).view other = m.view other := by
    intro other known
    have different : other ≠ m.created := Nat.ne_of_lt known
    rw [view, entries, jobs, scheduled, running, starting, multi, history, proxy,
      Function.update_of_ne different]
    simp [view, entries, different]
  have outside : ∀ {place : Prop}, (place → m.ledger.Held m.created) → ¬place :=
    fun listed placed => Nat.lt_irrefl _ (sound.known _ (listed placed))
  have new : ((m.add platform request).view m.created).Told platform false := by
    apply View.Told.new <;> simp only [view, jobs, Function.update_self]
    · rw [entries, history]
      apply List.filter_eq_nil_iff.mpr
      intro entry member
      simpa using Nat.ne_of_lt (telling.known entry member)
    · simp [scheduled]
    · rw [running, starting]
      refine ⟨decide_eq_false (outside fun runs => ?_), decide_eq_false (outside fun starts => ?_)⟩
      · exact Or.inr (Or.inl runs)
      · exact Or.inr (Or.inr starts)
    · exact shown
  refine ⟨⟨inOrder, ?_, ?_, ?_, ?_⟩, created ▸ Nat.le_succ _, fun other known => ?_⟩
  · rw [history, created]
    exact fun entry member => Nat.lt_succ_of_lt (telling.known entry member)
  · rw [created]
    exact fun other listed => Nat.lt_succ_of_lt (telling.listed other listed)
  · rw [hasCredentials, proxy]
    exact telling.credentials
  · intro other known
    rcases Nat.lt_succ_iff_lt_or_eq.mp (created ▸ known) with old | rfl
    · rw [others other old]
      exact telling.told other old
    · rw [decide_eq_false fun listed => Nat.lt_irrefl _ (telling.listed _ listed)]
      exact new
  · rw [others other known]
    exact .refl _

/-- `cancel` takes a job that waits from the list and marks any other. -/
theorem view_cancel (nodup : m.scheduledJobList.Nodup) (other : Nat) :
    (m.cancel job).view other =
      if other = job then
        if job ∈ m.scheduledJobList then { m.view job with scheduled := false }
        else { m.view job with d := { (m.jobs job).d with cancelled := true } }
      else m.view other := by
  rw [cancel, removeScheduledJob]
  by_cases waits : job ∈ m.scheduledJobList
  · rw [if_pos waits, if_pos waits]
    dsimp only
    rw [view_deref]
    by_cases same : other = job
    · rw [if_pos same, same, view]
      simp only [nodup.mem_erase_iff, ne_eq, not_true_eq_false, false_and, decide_false]
      rfl
    · rw [if_neg same, view]
      simp only [List.mem_erase_of_ne same]
      rfl
  · rw [if_neg waits, if_neg waits]
    dsimp only
    rw [← m.view_write job fun d => { d with cancelled := true }]
    generalize m.write job (fun d => { d with cancelled := true }) = m'
    split_ifs <;> rfl

theorem telling_cancel (telling : Telling platform finishing m) (isKnown : job < m.created) :
    Telling platform finishing ((m.enter (.cancelled job)).cancel job) ∧
      Undisturbed m ((m.enter (.cancelled job)).cancel job) := by
  have sound : m.ledger.Sound := telling.inOrder
  have inOrder : InOrder ((m.enter (.cancelled job)).cancel job) :=
    (clientAct_calm sound platform (.cancel job)).1
  obtain ⟨created, history, proxy, hasCredentials⟩ :
      ((m.enter (.cancelled job)).cancel job).created = m.created ∧
      ((m.enter (.cancelled job)).cancel job).history = m.history ++ [.cancelled job] ∧
      ((m.enter (.cancelled job)).cancel job).proxy = m.proxy ∧
      ((m.enter (.cancelled job)).cancel job).hasProxyUserPass = m.hasProxyUserPass := by
    unfold cancel removeScheduledJob
    by_cases waits : job ∈ (m.enter (.cancelled job)).scheduledJobList
    · rw [if_pos waits]
      exact ⟨rfl, rfl, rfl, rfl⟩
    · rw [if_neg waits]
      dsimp only
      split_ifs <;> exact ⟨rfl, rfl, rfl, rfl⟩
  have viewed := @view_cancel (m.enter (.cancelled job)) job sound.scheduled
  have others : ∀ other, other ≠ job →
      ((m.enter (.cancelled job)).cancel job).view other = m.view other := by
    intro other different
    rw [viewed, if_neg different]
    exact view_enter_other different.symm
  have entered : (m.enter (.cancelled job)).view job =
      { m.view job with entries := m.entries job ++ [.cancelled job] } := view_enter_own rfl
  have own := viewed job
  rw [if_pos rfl, entered] at own
  have told := telling.told job isKnown
  have acts : ∃ acts, m.entries job ++ [.cancelled job] = m.entries job ++ acts ∧
      ∀ entry ∈ acts, entry.isCancellation = true ∨ entry.isRelease = true :=
    ⟨_, rfl, by simp [Entry.isCancellation]⟩
  refine ⟨telling.step isKnown inOrder created ?_ ?_ (fun other _ => Iff.rfl) others ?_,
    .step created others ?_⟩
  · rw [history]
    intro entry member
    exact (List.mem_append.mp member).imp id fun new =>
      congrArg Entry.job (List.mem_singleton.mp new)
  · rw [proxy, hasCredentials]
    exact telling.credentials
  · rw [own]
    split
    · rename_i waits
      apply told.cancelWaiting (decide_eq_true waits)
      refine ⟨decide_eq_false (sound.apart job waits), decide_eq_false fun starts => ?_⟩
      exact (sound.started job starts).1 waits
    · rename_i out
      exact told.cancelOther (decide_eq_false out) job
  · rw [own]
    split <;> exact ⟨rfl, rfl, rfl, rfl, rfl, rfl, rfl, fun _ _ => id, acts⟩

theorem telling_releaseClient (telling : Telling platform finishing m) (isKnown : job < m.created) :
    Telling platform finishing
        ((m.enter (.released job)).write job fun d => { d with client := false }) ∧
      Undisturbed m ((m.enter (.released job)).write job fun d => { d with client := false }) := by
  have others : ∀ other, other ≠ job →
      ((m.enter (.released job)).write job fun d => { d with client := false }).view other =
        m.view other := by
    intro other different
    rw [view_write, if_neg different]
    exact view_enter_other different.symm
  have entered : (m.enter (.released job)).view job =
      { m.view job with entries := m.entries job ++ [.released job] } := view_enter_own rfl
  have own : ((m.enter (.released job)).write job fun d => { d with client := false }).view job =
      { m.view job with
        d := { (m.jobs job).d with client := false }
        entries := m.entries job ++ [.released job] } := by
    rw [view_write, if_pos rfl, entered]
    rfl
  have inOrder := (clientAct_calm telling.inOrder platform (.releaseClient job)).1
  refine ⟨telling.step isKnown inOrder rfl ?_ telling.credentials (fun other _ => Iff.rfl) others ?_,
    .step rfl others ?_⟩
  · intro entry member
    exact (List.mem_append.mp member).imp id fun new =>
      congrArg Entry.job (List.mem_singleton.mp new)
  · rw [own]
    exact (telling.told job isKnown).release job
  · rw [own]
    exact ⟨rfl, rfl, rfl, rfl, rfl, rfl, rfl, fun _ _ => id, _, rfl, by simp [Entry.isRelease]⟩

/-- What a write does to the challenge of a job. -/
theorem Undisturbed.write {f : ResourceHandleInternal → ResourceHandleInternal}
    (keeps : ∀ d, (f d).response = d.response ∧ (f d).isSSL = d.isSSL ∧ (f d).request = d.request)
    (unanswered : (m.view job).AwaitsData → (m.view job).running = true →
      (m.jobs job).d.doAuthChallenge = false → (f (m.jobs job).d).doAuthChallenge = false) :
    Undisturbed m (m.write job f) := by
  have own : (m.write job f).view job = { m.view job with d := f (m.jobs job).d } := by
    rw [view_write, if_pos rfl]
  have others : ∀ other, other ≠ job → (m.write job f).view other = m.view other := by
    intro other different
    rw [view_write, if_neg different]
  obtain ⟨response, ssl, request⟩ := keeps (m.jobs job).d
  have created : (m.write job f).created = m.created := rfl
  apply Undisturbed.step created others
  rw [own]
  exact ⟨rfl, response, ssl, request, rfl, rfl, rfl, unanswered, [], (List.append_nil _).symm,
    by simp⟩

theorem telling_receivedCredential (telling : Telling platform finishing m)
    (isKnown : job < m.created) {challenge : AuthenticationChallenge} {credential : Credential}
    (inTime : (m.jobs job).d.webChallenge = some challenge → (m.view job).Answerable) :
    Telling platform finishing (m.receivedCredential job challenge credential) ∧
      Undisturbed m (m.receivedCredential job challenge credential) := by
  unfold receivedCredential
  by_cases present : (m.jobs job).d.webChallenge = some challenge
  · have answers : (m.write job fun d => { d with
        webChallenge := some { challenge with proposedCredential := credential } }).doAuthChallenge
          job = m.write job fun d => { d with
            webChallenge := some { challenge with proposedCredential := credential }
            doAuthChallenge := true } := by
      simp [ResourceHandleManager.doAuthChallenge, ResourceHandleManager.write, change]
    have challenged : (m.jobs job).d.webChallenge.isSome = true := by simp [present]
    have timely := inTime present
    have told := (telling.told job isKnown).answer challenged
      (fun runs => ⟨(timely runs).1, (timely runs).2.1, (timely runs).2.2.1⟩)
      { challenge with proposedCredential := credential }
    rw [if_neg (not_not.mpr present), answers]
    refine ⟨telling.write isKnown (fun _ => rfl) told, .write (fun _ => ⟨rfl, rfl, rfl⟩) ?_⟩
    exact fun awaits runs => absurd awaits (timely runs).2.2.2
  · rw [if_pos present]
    exact ⟨telling, .refl m⟩

theorem telling_continueWithoutCredential (telling : Telling platform finishing m)
    (isKnown : job < m.created) (challenge : AuthenticationChallenge) :
    Telling platform finishing (m.receivedRequestToContinueWithoutCredential job challenge) ∧
      Undisturbed m (m.receivedRequestToContinueWithoutCredential job challenge) := by
  unfold receivedRequestToContinueWithoutCredential
  split
  · exact ⟨telling, .refl m⟩
  · exact ⟨telling.write isKnown (fun _ => rfl) (telling.told job isKnown).clearAnswer,
      .write (fun _ => ⟨rfl, rfl, rfl⟩) fun _ _ _ => rfl⟩

theorem telling_doAuthChallenge (telling : Telling platform finishing m) (isKnown : job < m.created)
    (inTime : (m.jobs job).d.webChallenge.isSome = true → (m.view job).running = true →
      (m.view job).Repeatable ∧ (m.view job).Fresh ∧ (m.view job).terminals = 0) :
    Telling platform finishing (m.doAuthChallenge job) := by
  unfold ResourceHandleManager.doAuthChallenge
  cases present : (m.jobs job).d.webChallenge with
  | none => exact telling
  | some challenge =>
    have challenged : (m.jobs job).d.webChallenge.isSome = true := by simp [present]
    have told := (telling.told job isKnown).answer challenged (inTime challenged) challenge
    rw [← present] at told
    rw [if_neg (by simp)]
    exact telling.write isKnown (fun _ => rfl) told

theorem telling_receivedProxyCredential (telling : Telling platform finishing m)
    (isKnown : job < m.created) (proxy : m.proxy ≠ [])
    (inTime : (m.jobs job).d.webChallenge.isSome = true → (m.view job).Answerable)
    (credential : Credential) :
    Telling platform finishing (m.receivedProxyCredential job credential) ∧
      Undisturbed m (m.receivedProxyCredential job credential) := by
  have answered := telling_doAuthChallenge telling isKnown fun challenged runs =>
    have timely := inTime challenged runs
    ⟨timely.1, timely.2.1, timely.2.2.1⟩
  have undisturbed : Undisturbed m (m.doAuthChallenge job) := by
    unfold ResourceHandleManager.doAuthChallenge
    cases present : (m.jobs job).d.webChallenge with
    | none => exact .refl m
    | some challenge =>
      rw [if_neg (by simp)]
      refine .write (fun _ => ⟨rfl, rfl, rfl⟩) ?_
      exact fun awaits runs => absurd awaits (inTime (by simp [present]) runs).2.2.2
  have same : (m.doAuthChallenge job).proxy = m.proxy := by
    unfold ResourceHandleManager.doAuthChallenge
    split <;> rfl
  exact ⟨⟨answered.inOrder, answered.known, answered.listed, fun _ => same.symm ▸ proxy,
    answered.told⟩, undisturbed.created, undisturbed.jobs⟩

/-- One act of a client. -/
theorem clientAct_telling (telling : Telling platform finishing m) {event act : Event}
    (accepted : clientEvent m event = some act) (fine : Honoured platform m event) :
    Telling platform finishing (clientAct platform m act) ∧
      Undisturbed m (clientAct platform m act) := by
  cases event with
  | add request =>
    obtain rfl := Option.some.inj accepted
    exact telling_add telling fine
  | leave =>
    obtain rfl := Option.some.inj accepted
    exact ⟨telling, .refl m⟩
  | clearCookies =>
    obtain rfl := Option.some.inj accepted
    exact ⟨telling.cookies _, Nat.le_refl _, fun _ _ => .refl _⟩
  | cancel job =>
    obtain ⟨isKnown, rfl⟩ : job < m.created ∧ .cancel job = act := by
      simpa [clientEvent] using accepted
    exact telling_cancel telling isKnown
  | releaseClient job =>
    obtain ⟨isKnown, rfl⟩ : job < m.created ∧ .releaseClient job = act := by
      simpa [clientEvent] using accepted
    exact telling_releaseClient telling isKnown
  | receivedCredential job challenge credential =>
    obtain ⟨isKnown, rfl⟩ : job < m.created ∧ .receivedCredential job challenge credential = act := by
      simpa [clientEvent] using accepted
    exact telling_receivedCredential telling isKnown fine
  | receivedRequestToContinueWithoutCredential job challenge =>
    obtain ⟨isKnown, rfl⟩ : job < m.created ∧
        .receivedRequestToContinueWithoutCredential job challenge = act := by
      simpa [clientEvent] using accepted
    exact telling_continueWithoutCredential telling isKnown challenge
  | receivedProxyCredential job credential =>
    obtain ⟨isKnown, rfl⟩ : job < m.created ∧ .receivedProxyCredential job credential = act := by
      simpa [clientEvent] using accepted
    exact telling_receivedProxyCredential telling isKnown fine.1 fine.2 credential
  | _ => cases accepted

end

end WkcBrowser.Network
