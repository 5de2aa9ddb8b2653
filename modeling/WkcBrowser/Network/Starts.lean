import WkcBrowser.Network.Reports
import WkcBrowser.Network.TimerTurn

/-! Starting a job, seen from its life. A job that cannot be started leaves the manager, and then its
client was told or wants to hear no more. -/

namespace WkcBrowser.Network

open Wtf Lib.Interaction Program ResourceHandleManager
open Lib.Loop (Turn)

section
variable {platform : Platform} {m m' : ResourceHandleManager} {job : Nat} {finishing : Option Nat}

/-- A job is started that no transfer was added for. -/
structure Launch (platform : Platform) (job : Nat) (finishing : Option Nat)
    (m : ResourceHandleManager) : Prop where
  telling : Telling platform finishing m
  starting : m.starting = some job

theorem Launch.isKnown (at_ : Launch platform job finishing m) : job < m.created :=
  Ledger.Sound.known at_.telling.inOrder job (Or.inr (Or.inr at_.starting))

theorem Launch.out (at_ : Launch platform job finishing m) :
    (m.view job).scheduled = false ∧ (m.view job).running = false ∧
      (m.view job).starting = true ∧ (m.view job).added = false ∧ (m.view job).held = true := by
  have sound : m.ledger.Sound := at_.telling.inOrder
  obtain ⟨notScheduled, notRunning⟩ := sound.started job at_.starting
  have starts : (m.view job).starting = true := decide_eq_true at_.starting
  refine ⟨decide_eq_false notScheduled, decide_eq_false notRunning, starts,
    decide_eq_false fun added => notRunning (sound.added job added), ?_⟩
  simp [View.held, starts]

theorem Launch.told (at_ : Launch platform job finishing m) :
    (m.view job).Told platform (decide (finishing = some job)) :=
  at_.telling.told job at_.isKnown

/-- The client was called while the job is started. -/
theorem meets_notifyLaunch (at_ : Launch platform job none m) {notice : Notice}
    {finishing : Option Nat} (own : finishing = none ∨ finishing = some job)
    (told : View.Told { m.view job with
      entries := m.entries job ++ [.notice job notice (m.jobs job).transfer] } platform
        (decide (finishing = some job))) :
    Meets (Honoured platform) (Accounted platform) (notify platform job notice) m fun _ m' =>
      Launch platform job finishing m' ∧ View.Undisturbed { m.view job with
        entries := m.entries job ++ [.notice job notice (m.jobs job).transfer] } (m'.view job) := by
  have finishes : ∀ other, other ≠ job → (finishing = some other ↔ none = some other) := by
    rcases own with rfl | rfl
    · exact fun _ _ => Iff.rfl
    · intro other different
      simp [different.symm]
  apply (meets_notify (at_.telling.enter at_.isKnown rfl finishes told)).mono
  intro _ m' ⟨telling, undisturbed⟩
  have heard := undisturbed.jobs job at_.isKnown
  have entered : (m.enter (.notice job notice (m.jobs job).transfer)).view job = { m.view job with
      entries := m.entries job ++ [.notice job notice (m.jobs job).transfer] } := view_enter_own rfl
  rw [entered] at heard
  exact ⟨⟨telling, of_decide_eq_true (heard.starting.trans at_.out.2.2.1)⟩, heard⟩

/-- The client cancelled the job that is started. -/
theorem Launch.settled_of_cancelled (at_ : Launch platform job none m)
    (cancelled : (m.jobs job).d.cancelled = true) : (m.view job).Settled :=
  Or.inr ⟨at_.told.pending at_.out.2.2.2.2 (by simp),
    Or.inl (at_.told.byClient (Or.inr at_.out.2.2.1) cancelled)⟩

/-- The client let go of the job that is started. -/
theorem Launch.settled_of_released (at_ : Launch platform job none m)
    (gone : (m.jobs job).d.client = false) : (m.view job).Settled :=
  Or.inr ⟨at_.told.pending at_.out.2.2.2.2 (by simp), Or.inr (at_.told.released.mp gone)⟩

/-- The data of a `data:` URL belongs to no redirect and no challenge. -/
theorem Launch.noticeData (at_ : Launch platform job none m)
    (active : (m.jobs job).d.cancelled = false) (responded : (m.view job).has Entry.isResponse)
    (bytes : List Byte) :
    View.Told { m.view job with
      entries := m.entries job ++ [.notice job (.didReceiveData bytes) (m.jobs job).transfer] }
      platform (decide (none = some job)) := by
  obtain ⟨-, -, starts, out, held⟩ := at_.out
  obtain ⟨ended, current⟩ := at_.told.untouched (Or.inr starts) out
  have silent := (at_.told.unanswered (Or.inr starts)).2
  exact at_.told.noticeData held active responded silent ended
    (fun entry member => by simp [current entry member]) job bytes

/-- The client was told all, or wants to hear no more. -/
def Concluded (platform : Platform) (job : Nat) (m : ResourceHandleManager) : Prop :=
  ∃ finishing, (finishing = none ∨ finishing = some job) ∧ Launch platform job finishing m ∧
    (m.view job).Settled

theorem Launch.conclude (at_ : Launch platform job none m) (settled : (m.view job).Settled) :
    Concluded platform job m :=
  ⟨none, Or.inl rfl, at_, settled⟩

theorem meets_finishLaunch (at_ : Launch platform job none m)
    (active : (m.jobs job).d.cancelled = false) :
    Meets (Honoured platform) (Accounted platform) (notify platform job .didFinishLoading) m
      fun _ m' => Concluded platform job m' := by
  obtain ⟨-, -, starts, -, held⟩ := at_.out
  have told := at_.told
  rw [decide_eq_false (by simp)] at told
  have ended : View.Told { m.view job with
      entries := m.entries job ++ [.notice job .didFinishLoading (m.jobs job).transfer] } platform
        (decide (some job = some job)) := by
    rw [decide_eq_true rfl]
    exact told.noticeEnd held active (told.unanswered (Or.inr starts)).2 rfl
  apply (meets_notifyLaunch at_ (Or.inr rfl) ended).mono
  intro _ m' ⟨at', _⟩
  have settled := at'.told.ending at'.out.2.2.2.2 (decide_eq_true rfl)
  exact ⟨some job, Or.inr rfl, at', Or.inl settled.1⟩

/-- A notice that is about neither data nor the end. -/
theorem meets_notifyPlain (at_ : Launch platform job none m) {notice : Notice}
    (plain : notice.plain = true) (active : (m.jobs job).d.cancelled = false) :
    Meets (Honoured platform) (Accounted platform) (notify platform job notice) m fun _ m' =>
      Launch platform job none m' ∧ View.Undisturbed { m.view job with
        entries := m.entries job ++ [.notice job notice (m.jobs job).transfer] } (m'.view job) := by
  obtain ⟨data, passed, terminal⟩ := Notice.plain_entry plain job (m.jobs job).transfer
  apply meets_notifyLaunch at_ (Or.inl rfl)
  exact at_.told.notice at_.out.2.2.2.2 active data passed terminal rfl rfl

theorem meets_deliverDataUrl (at_ : Launch platform job none m) (response : ResourceResponse)
    (out : List Byte) (active : (m.jobs job).d.cancelled = false) :
    Meets (Honoured platform) (Accounted platform) (deliverDataUrl platform job response out) m
      fun _ m' => Concluded platform job m' := by
  have response_ : (Notice.didReceiveResponse response).plain = true := rfl
  have announced : (Notice.willReceiveData out.length).plain = true := rfl
  apply meets_bind
  apply (meets_notifyPlain at_ response_ active).mono
  intro _ m₁ ⟨at₁, heard₁⟩
  have responded₁ : (m₁.view job).has Entry.isResponse :=
    heard₁.has (View.has_append.mpr (Or.inr rfl))
  apply meets_bind
  apply meets_read
  apply meets_ite
  · exact fun cancelled => meets_pure (at₁.conclude (at₁.settled_of_cancelled cancelled))
  intro active₁
  simp only [Bool.not_eq_true] at active₁
  apply meets_bind
  apply meets_read
  apply meets_ite
  · intro data
    have client : (m₁.jobs job).d.client = true := by
      simp only [Bool.and_eq_true] at data
      exact data.1
    apply meets_bind
    apply (meets_notifyPlain at₁ announced active₁).mono
    intro _ m₂ ⟨at₂, heard₂⟩
    have responded₂ := heard₂.has (View.has_append.mpr (Or.inl responded₁))
    apply meets_bind
    apply meets_read
    apply meets_ite
    · exact fun cancelled => meets_pure (at₂.conclude (at₂.settled_of_cancelled cancelled))
    intro active₂
    simp only [Bool.not_eq_true] at active₂
    apply meets_bind
    apply (meets_notifyLaunch at₂ (Or.inl rfl) (at₂.noticeData active₂ responded₂ out)).mono
    intro _ m₃ ⟨at₃, _⟩
    apply meets_bind
    apply meets_read
    apply meets_ite
    · exact fun cancelled => meets_pure (at₃.conclude (at₃.settled_of_cancelled cancelled))
    intro active₃
    simp only [Bool.not_eq_true] at active₃
    rw [if_pos client]
    exact meets_finishLaunch at₃ active₃
  · intro _
    apply meets_ite
    · exact fun _ => meets_finishLaunch at₁ active₁
    · intro gone
      exact meets_pure (at₁.conclude (at₁.settled_of_released (by simpa using gone)))

theorem meets_parseDataUrl (at_ : Launch platform job none m)
    (active : (m.jobs job).d.cancelled = false)
    (data : equalIgnoringCase (platform.protocol (m.jobs job).d.request.url) (text "data") = true) :
    Meets (Honoured platform) (Accounted platform) (parseDataUrl platform job) m
      fun _ m' => Concluded platform job m' := by
  apply meets_bind
  apply meets_read
  apply meets_ite
  · intro gone
    exact meets_pure (at_.conclude (at_.settled_of_released (by simpa using gone)))
  intro _
  have shown := at_.told.shown (Or.inr at_.out.2.2.1) data
  dsimp only
  cases comma : find [44] (m.jobs job).d.request.url with
  | none =>
    have missing : (find [44] (m.view job).d.request.url).isSome = false := by
      change (find [44] (m.jobs job).d.request.url).isSome = false
      rw [comma]
      rfl
    exact absurd (missing.symm.trans shown) (by decide)
  | some index => exact meets_deliverDataUrl at_ _ _ active

/-- A transfer of the job is initialized. -/
theorem meets_initializeLaunch (at_ : Launch platform job none m)
    (active : (m.jobs job).d.cancelled = false) :
    Meets (Honoured platform) (Accounted platform) (initializeHandle platform job) m fun _ m' =>
      Launch platform job none m' ∧
        ((m'.jobs job).d.handle = false → (m'.view job).Settled) ∧
        ((m'.jobs job).d.handle = true → (m'.jobs job).d.cancelled = false) := by
  have sound : m.ledger.Sound := at_.telling.inOrder
  apply meets_bind
  apply meets_await at_.telling.accounted
  intro event found accepted fine
  apply meets_bind
  apply meets_update
  have set : Telling platform none (m.write job fun d => { d with handle := found }) := by
    have inOrder : InOrder (m.write job fun d => { d with handle := found }) := by
      rw [InOrder, m.ledger_setHandle job (b := found) fun _ => rfl]
      exact Ledger.Sound.setHandle sound found (sound.started job at_.starting).2
    apply at_.telling.step at_.isKnown inOrder rfl (fun entry member => Or.inl member)
      at_.telling.credentials (fun other _ => Iff.rfl)
    · intro other different
      rw [view_write, if_neg different]
    · rw [view_write, if_pos rfl]
      exact at_.told.write rfl rfl rfl rfl rfl (fun _ => rfl) fun _ => rfl
  have at₁ : Launch platform job none (m.write job fun d => { d with handle := found }) :=
    ⟨set, at_.starting⟩
  apply meets_ite
  · intro failed
    have missing : found = false := by simpa using failed
    refine meets_pure ⟨at₁, fun _ => at₁.settled_of_released ?_, fun handle => ?_⟩
    swap
    · rw [write_d, missing] at handle
      cases handle
    have dismissed : Dismissed m := by
      cases event <;> simp only [easyInitEvent, Option.some.injEq, reduceCtorEq] at accepted
      subst accepted
      rw [missing] at fine
      exact fine
    rw [write_d]
    exact dismissed job at_.starting
  · intro succeeded
    have handle : found = true := by simpa using succeeded
    refine meets_update ⟨⟨set.write at₁.isKnown (fun _ => rfl) ?_, at_.starting⟩, ?_, ?_⟩
    · have silent := (at₁.told.unanswered (Or.inr at₁.out.2.2.1)).2
      have still : ((m.write job fun d => { d with handle := found }).jobs job).d.cancelled =
          false := by
        rw [write_d]
        exact active
      refine at₁.told.write rfl still.symm ?_ rfl rfl (fun _ => rfl) fun answer => ?_
      · dsimp only
        split <;> rfl
      · exact absurd (silent.symm.trans answer) (by decide)
    · intro missing
      rw [write_d, write_d] at missing
      exact absurd (handle.symm.trans missing) (by decide)
    · exact fun _ => by rw [write_d]

/-- The job leaves with its client told, or it runs. -/
def Started (platform : Platform) (job : Nat) (m : ResourceHandleManager) : Prop :=
  (m.jobs job).d.cancelled = true ∧ (∃ before, Concluded platform job before ∧
    m = before.cancel job) ∨
  (m.jobs job).d.cancelled = false ∧ ∃ before, Launch platform job none before ∧
    (before.jobs job).d.handle = true ∧ m = (before.curlMultiAddHandle job).appendRunningJob job

theorem Concluded.started (concluded : Concluded platform job m) :
    Started platform job (m.cancel job) := by
  obtain ⟨finishing, own, at_, settled⟩ := concluded
  have out : job ∉ m.scheduledJobList := of_decide_eq_false at_.out.1
  exact Or.inl ⟨cancel_cancelled out, m, ⟨finishing, own, at_, settled⟩, rfl⟩

theorem meets_startLaunch (at_ : Launch platform job none m)
    (active : (m.jobs job).d.cancelled = false) :
    Meets (Honoured platform) (Accounted platform) (startJob platform job) m
      fun _ m' => Started platform job m' := by
  apply meets_bind
  apply meets_read
  apply meets_ite
  · intro data
    apply meets_bind
    apply (meets_parseDataUrl at_ active data).mono
    exact fun _ m' concluded => meets_update concluded.started
  · intro _
    apply meets_bind
    apply (meets_initializeLaunch at_ active).mono
    intro _ m' ⟨at', settled, still⟩
    apply meets_bind
    apply meets_read
    apply meets_ite
    · intro missing
      have handle : (m'.jobs job).d.handle = false := by simpa using missing
      exact meets_update (at'.conclude (settled handle)).started
    · intro set
      have handle : (m'.jobs job).d.handle = true := by simpa using set
      have placed : Started platform job ((m'.curlMultiAddHandle job).appendRunningJob job) := by
        refine Or.inr ⟨?_, m', at', handle, rfl⟩
        rw [appendRunningJob_d]
        exact still handle
      apply meets_bind
      apply meets_bind
      apply meets_await at'.telling.accounted
      intro event ret accepted fine
      cases ret with
      | error code =>
        have dismissed : Dismissed m' := by
          cases event <;> simp only [multiAddEvent, Option.some.injEq, reduceCtorEq] at accepted
          subst accepted
          exact fine
        have settled := at'.settled_of_released (dismissed job at'.starting)
        exact meets_pure (meets_update (at'.conclude settled).started)
      | ok => exact meets_bind (meets_update (meets_pure (meets_update placed)))
      | callMultiPerform => exact meets_bind (meets_update (meets_pure (meets_update placed)))

/-- No job is about to be started. -/
structure Free (platform : Platform) (m : ResourceHandleManager) : Prop where
  telling : Telling platform none m
  free : m.starting = none

theorem Free.cookies (free : Free platform m) (cookies : CookieShare) :
    Free platform { m with cookies } :=
  ⟨free.telling.cookies cookies, free.free⟩

/-- `cancel` only marks a job that does not wait. -/
theorem cancel_out (out : job ∉ m.scheduledJobList) : m.cancel job =
    { m.write job fun d => { d with cancelled := true } with
      downloadTimer := (m.cancel job).downloadTimer } := by
  unfold cancel removeScheduledJob
  rw [if_neg out]
  dsimp only
  split_ifs <;> rfl

/-- The job that could not be started leaves. -/
theorem Concluded.refuse (concluded : Concluded platform job m) :
    Free platform { ((m.cancel job).write job fun d => { d with handle := false }).deref job with
      starting := none } := by
  obtain ⟨finishing, own, at_, settled⟩ := concluded
  obtain ⟨out, notRunning, -, notAdded, -⟩ := at_.out
  have waits : job ∉ m.scheduledJobList := of_decide_eq_false out
  have same : (m.cancel job).ledger = m.ledger :=
    (m.cancel_ledger job).resolve_left fun dropped => waits dropped.2
  have begun : Starting job (m.cancel job) (m.cancel job) :=
    ⟨at_.telling.inOrder.of_ledger same, .refl _, (congrArg Ledger.starting same).trans at_.starting⟩
  have inOrder := (begun.refuse fun never : False => never.elim).inOrder
  refine ⟨?_, rfl⟩
  rw [cancel_out waits] at inOrder ⊢
  apply at_.telling.leave at_.isKnown own settled inOrder rfl rfl rfl rfl
  · intro other different
    have marked : (m.write job fun d => { d with cancelled := true }).view other =
        m.view other := by
      rw [view_write, if_neg different]
    rw [view_free_other, view_deref, view_write, if_neg different]
    · exact marked
    · intro starts
      exact different (Option.some.inj (starts.symm.trans at_.starting))
  · simp [deref, ResourceHandleManager.write, change]
  · rw [view_free, View.held]
    simp only [Bool.or_false, Bool.or_eq_false_iff]
    exact ⟨out, notRunning⟩
  · exact notAdded

/-- The job runs. -/
theorem Launch.place (at_ : Launch platform job none m) (handle : (m.jobs job).d.handle = true) :
    Free platform { (m.curlMultiAddHandle job).appendRunningJob job with starting := none } := by
  have begun : Starting job m m := ⟨at_.telling.inOrder, .refl _, at_.starting⟩
  have inOrder := (begun.place handle fun never : False => never.elim).inOrder
  have kept : ((m.curlMultiAddHandle job).appendRunningJob job).created = m.created ∧
      ((m.curlMultiAddHandle job).appendRunningJob job).history = m.history ∧
      ((m.curlMultiAddHandle job).appendRunningJob job).proxy = m.proxy ∧
      ((m.curlMultiAddHandle job).appendRunningJob job).hasProxyUserPass = m.hasProxyUserPass ∧
      ((m.curlMultiAddHandle job).appendRunningJob job).starting = m.starting := by
    unfold appendRunningJob
    dsimp only
    split <;> exact ⟨rfl, rfl, rfl, rfl, rfl⟩
  obtain ⟨created, history, proxy, credentials, starting⟩ := kept
  obtain ⟨-, -, starts, -⟩ := at_.out
  refine ⟨at_.telling.step at_.isKnown inOrder created ?_ ?_ (fun other _ => Iff.rfl) ?_ ?_, rfl⟩
  · intro entry member
    exact Or.inl (history ▸ member)
  · intro has
    rw [proxy]
    exact at_.telling.credentials (credentials ▸ has)
  · intro other different
    have apart : ((m.curlMultiAddHandle job).appendRunningJob job).starting ≠ some other := by
      rw [starting, at_.starting]
      exact fun same => different (Option.some.inj same).symm
    rw [view_free_other apart, view_appendRunningJob, if_neg different, view_curlMultiAddHandle,
      if_neg different]
  · rw [view_free, view_appendRunningJob, if_pos rfl, view_curlMultiAddHandle, if_pos rfl]
    have silent := (at_.told.unanswered (Or.inr starts)).2
    have next : ((m.curlMultiAddHandle job).jobs job).transfer.blocks =
        (m.view job).transfer.blocks + 1 := by
      simp [curlMultiAddHandle, view]
    exact (at_.told.attach silent next).place starts

/-- The next job is taken from the list. -/
theorem Free.take (free : Free platform m) (shifted : m.shiftScheduledJob = some (job, m')) :
    Launch platform job none (m'.take job) ∧
      (m'.jobs job).d.cancelled = false := by
  have sound : m.ledger.Sound := free.telling.inOrder
  obtain ⟨waits, rfl⟩ := m.shiftScheduledJob_eq job shifted
  have isKnown : job < m.created := sound.known job (Or.inl waits)
  have told := free.telling.told job isKnown
  have inOrder : InOrder ({ m with scheduledJobList := m.scheduledJobList.erase job }.take job) :=
    Ledger.Sound.take sound waits free.free
  refine ⟨⟨?_, rfl⟩, told.waits (decide_eq_true waits)⟩
  apply free.telling.step isKnown inOrder rfl (fun entry member => Or.inl member)
    free.telling.credentials (fun other _ => Iff.rfl)
  · intro other different
    have apart : m.starting ≠ some other := by simp [free.free]
    rw [view, view, ResourceHandleManager.take]
    simp only [List.mem_erase_of_ne different, Option.some.injEq, different.symm, free.free,
      reduceCtorEq]
    rfl
  · have taken : ({ m with scheduledJobList := m.scheduledJobList.erase job }.take job).view job =
        { m.view job with scheduled := false, starting := true } := by
      have gone : job ∉ m.scheduledJobList.erase job :=
        fun member => (sound.scheduled.mem_erase_iff.mp member).1 rfl
      rw [view, ResourceHandleManager.take, decide_eq_false gone, decide_eq_true rfl]
      rfl
    rw [taken]
    exact told.take (decide_eq_true waits)

theorem meets_launchTurn (free : Free platform m) (started : Bool) :
    Meets (Honoured platform) (Accounted platform) (startTurn platform started) m
      fun _ m' => Free platform m' := by
  apply meets_bind
  apply meets_read
  apply meets_ite
  · exact fun _ => meets_pure free
  intro _
  apply meets_ite
  · exact fun _ => meets_pure free
  intro _
  rw [id]
  cases shifted : m.shiftScheduledJob with
  | none => exact meets_pure free
  | some next =>
    obtain ⟨job, rest⟩ := next
    obtain ⟨at_, active⟩ := free.take shifted
    apply meets_bind
    apply meets_update
    apply meets_bind
    apply (meets_startLaunch at_ active).mono
    rintro _ m' (⟨cancelled, before, concluded, rfl⟩ | ⟨kept, before, at', handle, rfl⟩)
    · apply meets_bind
      apply meets_read
      rw [if_pos cancelled]
      apply meets_bind
      apply meets_update
      apply meets_bind
      apply meets_update
      apply meets_bind
      exact meets_update (meets_pure (concluded.refuse.cookies _))
    · apply meets_bind
      apply meets_read
      rw [if_neg (by simp [kept])]
      apply meets_bind
      exact meets_update (meets_pure (at'.place handle))

theorem meets_launchJobs (free : Free platform m) :
    Meets (Honoured platform) (Accounted platform) (startScheduledJobs platform) m
      fun _ m' => Free platform m' := by
  apply meets_loop fun _ => Free platform
  · exact fun _ _ free => free.telling.accounted
  · intro started m' free
    apply (meets_launchTurn free started).mono
    intro next m'' found
    cases next <;> exact found
  · exact free

end

end WkcBrowser.Network
