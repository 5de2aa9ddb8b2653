import WkcBrowser.Network.Starts

/-! The end of a job, seen from its life. A job that runs leaves the manager when its client was told
the end of the load, when its client cancelled it or when its client has let go of it. -/

namespace WkcBrowser.Network

open Wtf Lib.Interaction Program ResourceHandleManager
open Lib.Loop (Turn)

section
variable {platform : Platform} {m m' : ResourceHandleManager} {job : Nat} {finishing : Option Nat}

/-- A line of a header is received. -/
theorem During.receive {transfer : Transfer} (during : During platform job transfer m)
    (line : List Byte) (info : Info)
    (fine : Honoured platform m (.header job line info)) :
    During platform job (transfer.receive line info) (m.change job fun handle =>
        { handle with transfer := handle.transfer.receive line info }) ∧
      ((m.change job fun handle =>
        { handle with transfer := handle.transfer.receive line info }).view job).Fresh := by
  obtain ⟨out, -, apart, -⟩ := during.placed
  obtain ⟨told, fresh⟩ := during.told.receive ⟨out, apart⟩ line info fine
  have received : (m.change job fun handle =>
      { handle with transfer := handle.transfer.receive line info }).view job =
        { m.view job with transfer := (m.jobs job).transfer.receive line info } := by
    rw [view_change, if_pos rfl]
    rfl
  have inOrder : InOrder (m.change job fun handle =>
      { handle with transfer := handle.transfer.receive line info }) :=
    during.telling.inOrder.of_ledger
      (m.ledger_transfer job fun handle => handle.transfer.receive line info)
  refine ⟨⟨?_, during.runs, ?_⟩, ?_⟩
  · apply during.telling.step during.isKnown inOrder rfl (fun entry member => Or.inl member)
      during.telling.credentials (fun other _ => Iff.rfl)
    · intro other different
      rw [view_change, if_neg different]
    · rw [received]
      exact told
  · rw [change_jobs, if_pos rfl, ← during.transfer]
  · rw [received]
    exact fresh

/-- What curl reports while it is called. -/
theorem meets_reportTurn (telling : Telling platform none m) :
    Meets (Honoured platform) (Accounted platform) (performTurn platform ()) m
      fun _ m' => Telling platform none m' := by
  have sound : m.ledger.Sound := telling.inOrder
  apply meets_bind
  apply meets_await telling.accounted
  intro event report accepted fine
  cases event with
  | header job line info =>
    obtain ⟨added, rfl⟩ : (job ∈ m.multi ∧ m.isFinished job = false) ∧
        .header job line info = report := by
      simpa [performEvent] using accepted
    have before : During platform job (m.jobs job).transfer m :=
      ⟨telling, sound.added job added.1, rfl⟩
    obtain ⟨during, fresh⟩ := before.receive line info fine
    apply meets_bind
    apply meets_update
    apply meets_bind
    apply (meets_headerCallback during fresh line).mono
    exact fun _ m' during' => meets_pure during'.telling
  | body job data =>
    obtain ⟨⟨⟨added, -⟩, ended⟩, rfl⟩ : ((job ∈ m.multi ∧ m.isFinished job = false) ∧
        (m.jobs job).transfer.ended = true) ∧ .body job data = report := by
      simpa [performEvent] using accepted
    have during : During platform job (m.jobs job).transfer m :=
      ⟨telling, sound.added job added, rfl⟩
    apply meets_bind
    apply (meets_writeCallback during data ended fun active => ?_).mono
    · exact fun _ m' during' => meets_pure during'.telling
    · intro entry member passed
      cases notice : entry.isNotice with
      | true => exact fine active entry member notice passed
      | false =>
        have before := during.told.repeated (decide_eq_true added) entry member notice _ passed
        exact Nat.lt_irrefl _ before
  | finished job result =>
    obtain ⟨⟨added, -⟩, rfl⟩ : (job ∈ m.multi ∧ m.isFinished job = false) ∧
        .finished job result = report := by
      simpa [performEvent] using accepted
    have finished : { m with messages := m.messages ++ [(job, result)] }.ledger =
        m.ledger.finish job := by
      rw [ledger, List.map_append]
      rfl
    have inOrder : InOrder { m with messages := m.messages ++ [(job, result)] } := by
      rw [InOrder, finished]
      exact Ledger.Sound.finish sound added
    apply meets_bind
    exact meets_update (meets_pure ⟨inOrder, telling.known, telling.listed, telling.credentials,
      telling.told⟩)
  | performed =>
    obtain rfl : .performed = report := Option.some.inj accepted
    exact meets_pure telling
  | _ => cases accepted

/-- curl is called until it has nothing more to report. -/
theorem meets_reports (telling : Telling platform none m) :
    Meets (Honoured platform) (Accounted platform) (curlMultiPerform platform) m
      fun _ m' => Telling platform none m' := by
  have performed : Meets (Honoured platform) (Accounted platform)
      (loop work (performTurn platform) ()) m fun _ m' => Telling platform none m' := by
    apply meets_loop fun _ => Telling platform none
    · exact fun _ _ telling' => telling'.accounted
    · intro _ m' telling'
      apply (meets_reportTurn telling').mono
      intro next m'' found
      cases next <;> exact found
    · exact telling
  apply meets_bind
  apply performed.mono
  exact fun _ m' telling' => meets_read telling'

/-- A message of curl about a job is read. The end of the load was perhaps told already. -/
structure Ending (platform : Platform) (job : Nat) (finishing : Option Nat)
    (m : ResourceHandleManager) : Prop where
  telling : Telling platform finishing m
  runs : job ∈ m.runningJobList
  own : finishing = none ∨ finishing = some job

theorem Ending.isKnown (at_ : Ending platform job finishing m) : job < m.created :=
  Ledger.Sound.known at_.telling.inOrder job (Or.inr (Or.inl at_.runs))

theorem Ending.placed (at_ : Ending platform job finishing m) :
    (m.view job).scheduled = false ∧ (m.view job).running = true ∧
      (m.view job).starting = false ∧ (m.view job).held = true := by
  have sound : m.ledger.Sound := at_.telling.inOrder
  have running : (m.view job).running = true := decide_eq_true at_.runs
  refine ⟨decide_eq_false fun waits => sound.apart job waits at_.runs, running,
    decide_eq_false fun starts => (sound.started job starts).2 at_.runs, ?_⟩
  simp [View.held, running]

theorem Ending.told (at_ : Ending platform job finishing m) :
    (m.view job).Told platform (decide (finishing = some job)) :=
  at_.telling.told job at_.isKnown

/-- A client that cancelled the job or was told the end hears no more. -/
theorem Ending.settled_of_cancelled (at_ : Ending platform job finishing m)
    (cancelled : (m.jobs job).d.cancelled = true) : (m.view job).Settled := by
  obtain ⟨-, running, -, held⟩ := at_.placed
  rcases at_.own with rfl | rfl
  · exact Or.inr ⟨at_.told.pending held (by simp),
      Or.inl (at_.told.byClient (Or.inl running) cancelled)⟩
  · exact Or.inl (at_.told.ending held (by simp)).1

/-- Any way in which a running job is taken from the manager. -/
theorem Ending.leave {before : ResourceHandleManager} (at_ : Ending platform job finishing m)
    (settled : (m.view job).Settled)
    (left : (((before.curlMultiRemoveHandle job).write job
      fun d => { d with handle := false }).deref job).ledger = m.ledger.leave job)
    (jobs : before.jobs = m.jobs) (multi : before.multi.Nodup)
    (history : before.history = m.history) (proxy : before.proxy = m.proxy)
    (credentials : before.hasProxyUserPass = m.hasProxyUserPass)
    (viewed : ∀ other, before.view other =
      if other = job then { m.view job with running := false } else m.view other) :
    Telling platform none (((before.curlMultiRemoveHandle job).write job
      fun d => { d with handle := false }).deref job) := by
  have inOrder : InOrder (((before.curlMultiRemoveHandle job).write job
      fun d => { d with handle := false }).deref job) := by
    rw [InOrder, left]
    exact Ledger.Sound.leave at_.telling.inOrder at_.runs
  have created := congrArg Ledger.created left
  obtain ⟨out, -, apart, -⟩ := at_.placed
  have own := viewed job
  rw [if_pos rfl] at own
  have removed : (((before.curlMultiRemoveHandle job).write job
      fun d => { d with handle := false }).deref job).view job =
        { m.view job with
          d := { (m.jobs job).d with handle := false }, running := false, added := false } := by
    rw [view_deref, view_write, if_pos rfl, view_curlMultiRemoveHandle _ _ multi, if_pos rfl, own,
      curlMultiRemoveHandle, jobs]
  apply at_.telling.leave at_.isKnown at_.own settled inOrder created history proxy credentials
  · intro other different
    rw [view_deref, view_write, if_neg different, view_curlMultiRemoveHandle _ _ multi,
      if_neg different, viewed, if_neg different]
  · simp [deref, ResourceHandleManager.write, change, curlMultiRemoveHandle, jobs]
  · rw [removed]
    simp only [View.held, Bool.or_false]
    rw [out, apart]
    rfl
  · rw [removed]

theorem meets_endOfJob (at_ : Ending platform job finishing m) (settled : (m.view job).Settled) :
    Meets (Honoured platform) (Accounted platform) (leaveCurl job) m
      fun _ m' => Telling platform none m' := by
  have sound : m.ledger.Sound := at_.telling.inOrder
  have kept : (m.removeRunningJob job).jobs = m.jobs ∧ (m.removeRunningJob job).multi = m.multi ∧
      (m.removeRunningJob job).history = m.history ∧ (m.removeRunningJob job).proxy = m.proxy ∧
      (m.removeRunningJob job).hasProxyUserPass = m.hasProxyUserPass := by
    unfold removeRunningJob
    dsimp only
    split_ifs <;> exact ⟨rfl, rfl, rfl, rfl, rfl⟩
  obtain ⟨jobs, multi, history, proxy, credentials⟩ := kept
  have left := at_.leave settled (m.ledger_leaveCurl job) jobs (multi ▸ sound.multi) history proxy
    credentials (m.view_removeRunningJob job sound.running)
  apply meets_bind
  apply meets_update
  apply meets_bind
  apply meets_update
  apply meets_bind
  exact meets_update (meets_update (left.cookies _))

/-- The transfer is taken out of curl to answer a challenge. -/
theorem Ending.repeat (at_ : Ending platform job none m) (fresh : (m.view job).Fresh) :
    Ending platform job none
      ((m.enter (.repeated job (m.jobs job).transfer)).curlMultiRemoveHandle job) := by
  have sound : m.ledger.Sound := at_.telling.inOrder
  obtain ⟨out, -, apart, -⟩ := at_.placed
  have multi : (m.enter (.repeated job (m.jobs job).transfer)).multi.Nodup := sound.multi
  have inOrder : InOrder
      ((m.enter (.repeated job (m.jobs job).transfer)).curlMultiRemoveHandle job) := by
    rw [InOrder, ledger_curlMultiRemoveHandle]
    exact Ledger.Sound.detach sound
  refine ⟨at_.telling.step at_.isKnown inOrder rfl ?_ at_.telling.credentials
    (fun other _ => Iff.rfl) ?_ ?_, at_.runs, Or.inl rfl⟩
  · intro entry member
    exact (List.mem_append.mp member).imp id fun new =>
      congrArg Entry.job (List.mem_singleton.mp new)
  · intro other different
    rw [view_curlMultiRemoveHandle _ _ multi, if_neg different]
    exact view_enter_other different.symm
  · have entered : (m.enter (.repeated job (m.jobs job).transfer)).view job = { m.view job with
        entries := m.entries job ++ [.repeated job (m.jobs job).transfer] } := view_enter_own rfl
    rw [view_curlMultiRemoveHandle _ _ multi, if_pos rfl, entered]
    exact at_.told.repeat ⟨out, apart⟩ fresh job

/-- The transfer is added to curl again. -/
theorem Ending.attach (at_ : Ending platform job none m)
    (silent : (m.jobs job).d.doAuthChallenge = false) (out : job ∉ m.multi) :
    Telling platform none (m.curlMultiAddHandle job) := by
  have inOrder : InOrder (m.curlMultiAddHandle job) := by
    rw [InOrder, ledger_curlMultiAddHandle]
    exact Ledger.Sound.attach at_.telling.inOrder at_.runs out
  apply at_.telling.step at_.isKnown inOrder rfl (fun entry member => Or.inl member)
    at_.telling.credentials (fun other _ => Iff.rfl)
  · intro other different
    rw [view_curlMultiAddHandle, if_neg different]
  · have next : ((m.curlMultiAddHandle job).jobs job).transfer.blocks =
        (m.view job).transfer.blocks + 1 := by
      simp [curlMultiAddHandle, view]
    rw [view_curlMultiAddHandle, if_pos rfl]
    exact at_.told.attach silent next

theorem meets_repeatJob (at_ : Ending platform job none m) (fresh : (m.view job).Fresh)
    (silent : (m.jobs job).d.doAuthChallenge = false) (httpcode : Nat) :
    Meets (Honoured platform) (Accounted platform) (repeatTransfer job httpcode) m
      fun _ m' => Telling platform none m' := by
  have awake : ∀ m' : ResourceHandleManager, Telling platform none m' →
      Meets (Honoured platform) (Accounted platform) (do
        if !(← read (·.downloadTimer)) then
          update fun m => m.startOneShot) m' fun _ m' => Telling platform none m' := by
    intro m' telling
    apply meets_bind
    apply meets_read
    apply meets_ite
    · exact fun _ => meets_update ⟨telling.inOrder, telling.known, telling.listed,
        telling.credentials, telling.told⟩
    · exact fun _ => meets_pure telling
  have again : ∀ m' : ResourceHandleManager, Ending platform job none m' →
      (m'.jobs job).d.doAuthChallenge = false → job ∉ m'.multi →
      Meets (Honoured platform) (Accounted platform) (curlMultiAdd job >>= fun _ => do
        if !(← read (·.downloadTimer)) then
          update fun m => m.startOneShot) m' fun _ m' => Telling platform none m' := by
    intro m' at' silent' out
    apply meets_bind
    apply meets_bind
    apply meets_await at'.telling.accounted
    intro event ret _ _
    cases ret with
    | error code => exact meets_pure (awake m' at'.telling)
    | ok => exact meets_bind (meets_update (meets_pure (awake _ (at'.attach silent' out))))
    | callMultiPerform =>
      exact meets_bind (meets_update (meets_pure (awake _ (at'.attach silent' out))))
  have sound : m.ledger.Sound := at_.telling.inOrder
  have gone : job ∉ m.multi.erase job := fun member => (sound.multi.mem_erase_iff.mp member).1 rfl
  have at' := at_.repeat fresh
  apply meets_bind
  apply meets_update
  apply meets_ite
  · intro _
    apply meets_bind
    apply meets_update
    refine again _ ⟨⟨at'.telling.inOrder, at'.telling.known, at'.telling.listed, ?_,
      at'.telling.told⟩, at'.runs, at'.own⟩ silent gone
    intro has
    simp [hasProxyUserPass] at has
  · intro _
    exact again _ at' silent gone

/-- A transfer whose challenge is answered is repeated; any other leaves. -/
theorem meets_removeJob (at_ : Ending platform job finishing m)
    (settled : (m.jobs job).d.doAuthChallenge = false → (m.view job).Settled) :
    Meets (Honoured platform) (Accounted platform) (removeFromCurl job) m
      fun _ m' => Telling platform none m' := by
  have sound : m.ledger.Sound := at_.telling.inOrder
  have handle : (m.jobs job).d.handle = true := sound.handle job at_.runs
  obtain ⟨-, running, -, held⟩ := at_.placed
  apply meets_bind
  apply meets_read
  rw [if_neg (by simp [handle])]
  apply meets_ite
  · intro both
    obtain ⟨-, answer⟩ : (m.jobs job).d.webChallenge.isSome = true ∧
        (m.jobs job).d.doAuthChallenge = true := by
      simpa using both
    obtain ⟨-, repeatable, fresh⟩ := at_.told.answered running answer
    have unfinished : finishing = none := by
      refine at_.own.resolve_right fun ends => ?_
      have silent := (at_.told.ending held (decide_eq_true ends)).2
      exact absurd (silent.symm.trans answer) (by decide)
    subst unfinished
    have cleared : Ending platform job none
        (m.write job fun d => { d with doAuthChallenge := false }) :=
      ⟨at_.telling.write at_.isKnown (fun _ => rfl) at_.told.clearAnswer, at_.runs, Or.inl rfl⟩
    have repeats : ∀ httpcode, Meets (Honoured platform) (Accounted platform)
        (repeatTransfer job httpcode) (m.write job fun d => { d with doAuthChallenge := false })
        fun _ m' => Telling platform none m' :=
      meets_repeatJob cleared (fresh_write fresh) (by rw [write_d])
    have code : challengeCode (m.jobs job).d.isSSL (m.jobs job).transfer.info = 401 ∨
        challengeCode (m.jobs job).d.isSSL (m.jobs job).transfer.info = 407 ∧ m.proxy ≠ [] :=
      repeatable
    apply meets_bind
    apply meets_read
    apply meets_bind
    apply meets_read
    apply meets_bind
    apply meets_update
    apply meets_ite
    · rintro ⟨proxy, empty⟩
      rcases code with server | ⟨-, present⟩
      · rw [server] at proxy
        cases proxy
      · exact absurd (List.length_eq_zero_iff.mp empty) present
    · intro _
      apply meets_ite
      · exact fun _ => repeats _
      · intro other
        exact absurd (code.imp id And.left) other
  · intro either
    apply meets_endOfJob at_
    apply settled
    by_contra answer
    have set : (m.jobs job).d.doAuthChallenge = true := by simpa using answer
    have challenged : (m.jobs job).d.webChallenge.isSome = true :=
      (at_.told.answered running set).1
    simp [challenged, set] at either

/-- The client is told the end of the load, unless it has let go of the job. -/
theorem meets_notifyEnd (at_ : Ending platform job none m) {notice : Notice}
    (terminal : ∀ transfer, (Entry.notice job notice transfer).isTerminal = true)
    (active : (m.jobs job).d.cancelled = false)
    (silent : (m.jobs job).d.doAuthChallenge = false) :
    Meets (Honoured platform) (Accounted platform) (notifyClient platform job notice) m
      fun _ m' => ∃ finishing, Ending platform job finishing m' ∧ (m'.view job).Settled := by
  obtain ⟨-, running, -, held⟩ := at_.placed
  have told := at_.told
  rw [decide_eq_false (by simp)] at told
  apply meets_bind
  apply meets_read
  apply meets_ite
  · intro _
    have ended : View.Told { m.view job with
        entries := m.entries job ++ [.notice job notice (m.jobs job).transfer] } platform
          (decide (some job = some job)) := by
      rw [decide_eq_true rfl]
      exact told.noticeEnd held active silent (terminal _)
    have finishes : ∀ other, other ≠ job → (some job = some other ↔ none = some other) := by
      intro other different
      simp [different.symm]
    apply (meets_notify (at_.telling.enter at_.isKnown rfl finishes ended)).mono
    intro _ m' ⟨telling, undisturbed⟩
    have heard := undisturbed.heard at_.isKnown
    obtain ⟨said, seen, -⟩ := heard
    have runs : job ∈ m'.runningJobList := of_decide_eq_true (seen.running.trans running)
    have at' : Ending platform job (some job) m' := ⟨telling, runs, Or.inr rfl⟩
    exact ⟨some job, at', Or.inl (at'.told.ending at'.placed.2.2.2 (by simp)).1⟩
  · intro gone
    have released : (m.jobs job).d.client = false := by simpa using gone
    exact meets_pure ⟨none, at_, Or.inr ⟨told.pending held rfl, Or.inr (told.released.mp released)⟩⟩

theorem meets_endOfTransfer (at_ : Ending platform job none m) (result : Nat) :
    Meets (Honoured platform) (Accounted platform) (transferDone platform job result) m
      fun _ m' => Telling platform none m' := by
  have stop : ∀ {m' : ResourceHandleManager}, Ending platform job none m' →
      ((m'.jobs job).d.cancelled || (m'.jobs job).d.doAuthChallenge) = true →
      Meets (Honoured platform) (Accounted platform) (removeFromCurl job >>= fun _ => pure ()) m'
        fun _ m' => Telling platform none m' := by
    intro m' at' either
    apply meets_bind
    apply (meets_removeJob at' fun silent => ?_).mono
    · exact fun _ _ done => meets_pure done
    · rw [silent, Bool.or_false] at either
      exact at'.settled_of_cancelled either
  have inform : ∀ {m' : ResourceHandleManager} (notice : Notice), Ending platform job none m' →
      (∀ transfer, (Entry.notice job notice transfer).isTerminal = true) →
      ¬((m'.jobs job).d.cancelled || (m'.jobs job).d.doAuthChallenge) = true →
      Meets (Honoured platform) (Accounted platform)
        (notifyClient platform job notice >>= fun _ => removeFromCurl job) m'
        fun _ m' => Telling platform none m' := by
    intro m' notice at' terminal neither
    simp only [Bool.not_eq_true, Bool.or_eq_false_iff] at neither
    apply meets_bind
    apply (meets_notifyEnd at' terminal neither.1 neither.2).mono
    intro _ m'' ⟨_, at'', settled⟩
    exact meets_removeJob at'' fun _ => settled
  apply meets_bind
  apply meets_read
  apply meets_ite
  · exact fun either => stop at_ either
  intro neither
  apply meets_ite
  · intro _
    apply meets_ite
    · intro _
      have active : (m.jobs job).d.cancelled = false := by
        simp only [Bool.not_eq_true, Bool.or_eq_false_iff] at neither
        exact neither.1
      have during : During platform job (m.jobs job).transfer m := ⟨at_.telling, at_.runs, rfl⟩
      apply meets_bind
      apply (meets_handleLocalReceiveResponse during active).mono
      intro _ m' ⟨during', _, _⟩
      have at' : Ending platform job none m' := ⟨during'.telling, during'.runs, Or.inl rfl⟩
      apply meets_bind
      apply meets_read
      apply meets_ite
      · exact fun either => stop at' either
      · exact fun neither' => inform _ at' (fun _ => rfl) neither'
    · exact fun _ => inform _ at_ (fun _ => rfl) neither
  · exact fun _ => inform _ at_ (fun _ => rfl) neither

/-- All messages of curl are read. -/
theorem meets_readMessages (telling : Telling platform none m) :
    Meets (Honoured platform) (Accounted platform) (loop work (messageTurn platform) ()) m
      fun _ m' => Telling platform none m' := by
  apply meets_loop fun _ => Telling platform none
  · exact fun _ _ telling' => telling'.accounted
  · intro _ m' telling'
    apply meets_bind
    apply meets_read
    cases same : m'.messages with
    | nil => exact meets_pure telling'
    | cons message messages =>
      obtain ⟨job, result⟩ := message
      have sound : m'.ledger.Sound := telling'.inOrder
      have reported : (job, result) ∈ m'.messages := same ▸ List.mem_cons_self
      have runs : job ∈ m'.runningJobList :=
        sound.added job (sound.finished job (List.mem_map_of_mem reported))
      have inOrder : InOrder { m' with messages } := by
        apply Ledger.Sound.read sound
        rw [ledger, same]
        exact List.subset_cons_self ..
      have reading : Ending platform job none { m' with messages } :=
        ⟨⟨inOrder, telling'.known, telling'.listed, telling'.credentials, telling'.told⟩, runs,
          Or.inl rfl⟩
      apply meets_bind
      apply meets_update
      apply meets_bind
      exact (meets_endOfTransfer reading result).mono fun _ _ done => meets_pure done
  · exact telling

/-- The jobs that were cancelled leave. -/
theorem Telling.cancelJobs (telling : Telling platform none m) (jobs : Nat) :
    Telling platform none (m.cancelJobs jobs) := by
  induction jobs generalizing m with
  | zero => exact telling
  | succ jobs ih =>
    rw [ResourceHandleManager.cancelJobs]
    cases found : m.cancelledJob with
    | none => exact telling
    | some job =>
      have sound : m.ledger.Sound := telling.inOrder
      have at_ : Ending platform job none m :=
        ⟨telling, List.mem_of_find?_eq_some found, Or.inl rfl⟩
      have cancelled : (m.jobs job).d.cancelled = true := by
        have satisfied := List.find?_some found
        exact satisfied
      have left := m.ledger_removeCancelledJob job
      apply ih
      unfold removeCancelledJob at left ⊢
      dsimp only at left ⊢
      apply at_.leave (at_.settled_of_cancelled cancelled) left
      · split <;> rfl
      · split <;> exact sound.multi
      · split <;> rfl
      · split <;> rfl
      · split <;> rfl
      · intro other
        rw [← m.view_eraseRunning job sound.running]
        split <;> rfl

end

end WkcBrowser.Network
