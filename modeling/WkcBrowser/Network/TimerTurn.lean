import WkcBrowser.Network.Steady

/-! A turn of the download timer. It starts jobs, lets curl run, reads its messages and starts jobs
again, and between these steps no job is lost and none is left behind without a timer. -/

namespace WkcBrowser.Network

open Wtf Lib.Interaction Program ResourceHandleManager
open Lib.Loop (Turn)

/-- No step is under way. With `full`, curl has every job that runs. -/
structure Settled (full : Prop) (m : ResourceHandleManager) : Prop where
  inOrder : InOrder m
  free : m.starting = none
  added : full → ∀ job ∈ m.runningJobList, job ∈ m.multi

theorem Settled.calm {full : Prop} {m m' : ResourceHandleManager} (settled : Settled full m)
    (inOrder : InOrder m') (calm : Calm m m') : Settled full m' where
  inOrder := inOrder
  free := calm.starting.trans settled.free
  added := by
    rw [calm.running, calm.multi]
    exact settled.added

/-- The lists do not depend on the cookies. -/
theorem Settled.cookies {full : Prop} {m : ResourceHandleManager} (settled : Settled full m)
    (cookies : CookieShare) : Settled full { m with cookies } :=
  ⟨settled.inOrder, settled.free, settled.added⟩

theorem cancel_cancelled {m : ResourceHandleManager} {job : Nat} (out : job ∉ m.scheduledJobList) :
    ((m.cancel job).jobs job).d.cancelled = true := by
  rw [cancel, removeScheduledJob, if_neg out]
  dsimp only
  split_ifs <;> simp [ResourceHandleManager.write, startOneShot]

section
variable {ok : ResourceHandleManager → Event → Prop}
variable (platform : Platform) (job : Nat)

/-- The job that is started, before it is placed in a list. -/
structure Starting (m m' : ResourceHandleManager) : Prop where
  inOrder : InOrder m'
  calm : Calm m m'
  starting : m'.starting = some job

/-- The job is placed among the running ones or was cancelled on the way. -/
def Placed (m m' : ResourceHandleManager) : Prop :=
  (m'.jobs job).d.cancelled = true ∧ Starting job m m' ∨
    (m'.jobs job).d.cancelled = false ∧ ∃ before, Starting job m before ∧
      (before.jobs job).d.handle = true ∧
      m' = (before.curlMultiAddHandle job).appendRunningJob job

variable {job} {full : Prop}

theorem Starting.cancel {m m' : ResourceHandleManager} (at_ : Starting job m m') :
    Placed job m (m'.cancel job) := by
  have out : job ∉ m'.scheduledJobList := (at_.inOrder.started job at_.starting).1
  refine Or.inl ⟨cancel_cancelled out, ?_, at_.calm.trans (m'.calm_cancel job), ?_⟩
  · rcases m'.cancel_ledger job with ⟨-, waits⟩ | same
    · exact absurd waits out
    · exact at_.inOrder.of_ledger same
  · exact (m'.calm_cancel job).starting.trans at_.starting

theorem Starting.setHandle {m m' : ResourceHandleManager} (at_ : Starting job m m') {b : Bool}
    {f : ResourceHandleInternal → ResourceHandleInternal} (sets : ∀ d, (f d).handle = b) :
    Starting job m (m'.write job f) where
  inOrder := by
    rw [InOrder, m'.ledger_setHandle job sets]
    exact Ledger.Sound.setHandle at_.inOrder b (at_.inOrder.started job at_.starting).2
  calm := at_.calm.trans (m'.calm_write job f)
  starting := at_.starting

theorem meets_initializeHandle {m m' : ResourceHandleManager} (at_ : Starting job m m') :
    Meets ok InOrder (initializeHandle platform job) m' fun _ m'' => Starting job m m'' ∧
      ((m''.jobs job).d.handle = true → (m''.jobs job).d.cancelled = false) := by
  apply meets_bind
  apply meets_await at_.inOrder
  intro event found accepted fine
  apply meets_bind
  apply meets_update
  have set := at_.setHandle (f := fun d => { d with handle := found }) fun _ => rfl
  apply meets_ite
  · intro failed
    refine meets_pure ⟨set, ?_⟩
    simp_all [ResourceHandleManager.write]
  · intro _
    refine meets_update ⟨⟨?_, ?_, ?_⟩, ?_⟩
    · exact set.inOrder.of_ledger (ledger_write _ job fun _ => rfl)
    · exact set.calm.trans (calm_write _ job _)
    · exact set.starting
    · simp [ResourceHandleManager.write]

theorem meets_curlMultiAdd {m : ResourceHandleManager} (inOrder : InOrder m)
    {post : CURLMcode → ResourceHandleManager → Prop}
    (failed : ∀ code, ok m (.multiAdd (.error code)) → post (.error code) m)
    (added : ∀ ret, (∀ code, ret ≠ .error code) → post ret (m.curlMultiAddHandle job)) :
    Meets ok InOrder (curlMultiAdd job) m post := by
  apply meets_bind
  apply meets_await inOrder
  intro event ret accepted fine
  cases ret with
  | error code =>
    cases event <;> simp only [multiAddEvent, Option.some.injEq, reduceCtorEq] at accepted
    subst accepted
    exact meets_pure (failed code fine)
  | ok => exact meets_bind (meets_update (meets_pure (added _ (by simp))))
  | callMultiPerform => exact meets_bind (meets_update (meets_pure (added _ (by simp))))

theorem appendRunningJob_d (m : ResourceHandleManager) :
    (((m.curlMultiAddHandle job).appendRunningJob job).jobs job).d = (m.jobs job).d := by
  unfold appendRunningJob
  dsimp only
  split <;> simp [curlMultiAddHandle]

theorem meets_startJob {m : ResourceHandleManager} (inOrder : InOrder m)
    (starting : m.starting = some job) :
    Meets ok InOrder (startJob platform job) m fun _ m' => Placed job m m' := by
  apply meets_bind
  apply meets_read
  apply meets_ite
  · intro _
    apply meets_bind
    apply (steady_parseDataUrl platform job m inOrder).mono
    intro _ m' ⟨inOrder', calm⟩
    apply meets_update
    exact Starting.cancel ⟨inOrder', calm, calm.starting.trans starting⟩
  · intro _
    apply meets_bind
    apply (meets_initializeHandle platform ⟨inOrder, .refl m, starting⟩).mono
    intro _ m' ⟨at_, fresh⟩
    apply meets_bind
    apply meets_read
    apply meets_ite
    · intro _
      apply meets_update
      exact at_.cancel
    · intro set
      have handle : (m'.jobs job).d.handle = true := by simpa using set
      apply meets_bind
      apply meets_curlMultiAdd at_.inOrder
      · intro code _
        apply meets_update
        exact at_.cancel
      · intro ret succeeded
        have placed : Placed job m ((m'.curlMultiAddHandle job).appendRunningJob job) := by
          refine Or.inr ⟨?_, m', at_, handle, rfl⟩
          rw [appendRunningJob_d]
          exact fresh handle
        cases ret with
        | error code => exact absurd rfl (succeeded code)
        | ok => exact meets_update placed
        | callMultiPerform => exact meets_update placed

/-- The job could not be started and is given up. -/
theorem Starting.refuse {m m' : ResourceHandleManager} (at_ : Starting job m m')
    (added : full → ∀ job ∈ m.runningJobList, job ∈ m.multi) :
    Settled full { (m'.write job fun d => { d with handle := false }).deref job with
      starting := none } where
  inOrder := by
    have ledger : { (m'.write job fun d => { d with handle := false }).deref job with
        starting := none }.ledger = m'.ledger.refuse job := by
      have released := ledger_deref (m'.write job fun d => { d with handle := false }) job
      have set := m'.ledger_setHandle job (f := fun d => { d with handle := false }) (b := false)
        fun _ => rfl
      rw [set] at released
      exact congrArg (fun l : Ledger => { l with starting := none }) released
    rw [InOrder, ledger]
    exact Ledger.Sound.refuse at_.inOrder at_.starting
  free := rfl
  added := fun holds => by
    have before := added holds
    rw [← at_.calm.running, ← at_.calm.multi] at before
    exact before

variable (job) in
theorem appendRunningJob_lists (m : ResourceHandleManager) :
    ((m.curlMultiAddHandle job).appendRunningJob job).runningJobList = m.runningJobList ++ [job] ∧
      ((m.curlMultiAddHandle job).appendRunningJob job).multi = m.multi ++ [job] ∧
      ((m.curlMultiAddHandle job).appendRunningJob job).downloadTimer = m.downloadTimer := by
  unfold appendRunningJob
  dsimp only
  split <;> exact ⟨rfl, rfl, rfl⟩

/-- The job runs. -/
theorem Starting.place {m m' : ResourceHandleManager} (at_ : Starting job m m')
    (handle : (m'.jobs job).d.handle = true)
    (added : full → ∀ job ∈ m.runningJobList, job ∈ m.multi) :
    Settled full { (m'.curlMultiAddHandle job).appendRunningJob job with starting := none } := by
  obtain ⟨running, multi, -⟩ := appendRunningJob_lists job m'
  refine ⟨?_, rfl, fun holds => ?_⟩
  · rw [InOrder, m'.ledger_appendRunningJob job]
    exact Ledger.Sound.place at_.inOrder at_.starting handle
  · have before := added holds
    rw [← at_.calm.running, ← at_.calm.multi] at before
    dsimp only
    rw [running, multi]
    intro other member
    rcases List.mem_append.mp member with old | new
    · exact List.mem_append_left _ (before other old)
    · exact List.mem_append_right _ new

variable (full) in
/-- What the loop of `startScheduledJobs` keeps. -/
structure Launching (m : ResourceHandleManager) (started : Bool) (m' : ResourceHandleManager) :
    Prop where
  settled : Settled full m'
  timer : m.downloadTimer = true → m'.downloadTimer = true
  same : started = false → m'.runningJobList = m.runningJobList

theorem meets_startTurn {m m' : ResourceHandleManager} {started : Bool}
    (at_ : Launching full m started m') :
    Meets ok InOrder (startTurn platform started) m' fun next m'' =>
      match next with
      | .again started' => Launching full m started' m''
      | .done started' => Launching full m started' m'' ∧
        (started' = false → m''.scheduledJobList = [] ∨ m''.runningJobList ≠ []) := by
  apply meets_bind
  apply meets_read
  apply meets_ite
  · intro stop
    refine meets_pure ⟨at_, fun _ => stop.imp id ?_⟩
    intro busy empty
    have positive := m'.tcpConnections.2
    rw [id, empty, List.length_nil] at busy
    omega
  · intro _
    apply meets_ite
    · intro busy
      exact meets_pure ⟨at_, fun _ => Or.inr (List.ne_nil_of_length_pos busy.2)⟩
    · intro _
      rw [id]
      cases shifted : m'.shiftScheduledJob with
      | none => exact meets_pure ⟨⟨at_.settled, at_.timer, by simp⟩, by simp⟩
      | some next =>
        obtain ⟨job, rest⟩ := next
        obtain ⟨waits, rfl⟩ := m'.shiftScheduledJob_eq job shifted
        have inOrder : InOrder ({ m' with
            scheduledJobList := m'.scheduledJobList.erase job }.take job) :=
          Ledger.Sound.take at_.settled.inOrder waits at_.settled.free
        apply meets_bind
        apply meets_update
        apply meets_bind
        apply (meets_startJob platform inOrder rfl).mono
        rintro _ m'' (⟨cancelled, at'⟩ | ⟨kept, before, at', handle, rfl⟩)
        · apply meets_bind
          apply meets_read
          rw [if_pos cancelled]
          apply meets_bind
          apply meets_update
          apply meets_bind
          apply meets_update
          apply meets_bind
          refine meets_update (meets_pure ⟨(at'.refuse at_.settled.added).cookies _, ?_, ?_⟩)
          · exact fun active => at'.calm.timer (at_.timer active)
          · exact fun first => at'.calm.running.trans (at_.same first)
        · apply meets_bind
          apply meets_read
          rw [if_neg (by simp [kept])]
          apply meets_bind
          refine meets_update (meets_pure ⟨at'.place handle at_.settled.added, ?_, by simp⟩)
          intro active
          exact (appendRunningJob_lists job before).2.2.trans (at'.calm.timer (at_.timer active))

theorem meets_startScheduledJobs {m : ResourceHandleManager} (settled : Settled full m) :
    Meets ok InOrder (startScheduledJobs platform) m fun started m' =>
      Launching full m started m' ∧
        (started = false → m'.scheduledJobList = [] ∨ m'.runningJobList ≠ []) := by
  apply meets_loop (Launching full m)
  · exact fun _ _ at_ => at_.settled.inOrder
  · intro started m' at_
    apply (meets_startTurn platform at_).mono
    intro next m'' found
    cases next <;> exact found
  · exact ⟨settled, id, fun _ => rfl⟩

theorem isFinished_iff {m : ResourceHandleManager} :
    m.isFinished job = true ↔ job ∈ m.messages.map (·.1) := by
  simp [isFinished]

theorem meets_performTurn {m : ResourceHandleManager} (settled : Settled full m) :
    Meets ok InOrder (performTurn platform ()) m fun _ m' => Settled full m' := by
  apply meets_bind
  apply meets_await settled.inOrder
  intro event report accepted _
  cases report with
  | header job line info =>
    apply meets_bind
    apply meets_update
    have received := settled.inOrder.of_ledger
      (m.ledger_transfer job fun handle => handle.transfer.receive line info)
    apply meets_bind
    apply (steady_headerCallback platform job line _ received).mono
    intro _ m' ⟨inOrder, calm⟩
    exact meets_pure (settled.calm inOrder
      ⟨calm.running, calm.starting, calm.multi, calm.messages, calm.timer, calm.woken⟩)
  | body job data =>
    apply meets_bind
    apply (steady_writeCallback platform job data _ settled.inOrder).mono
    intro _ m' ⟨inOrder, calm⟩
    exact meets_pure (settled.calm inOrder calm)
  | finished job result =>
    apply meets_bind
    refine meets_update (meets_pure ⟨?_, settled.free, settled.added⟩)
    have runs : job ∈ m.multi := by
      cases event <;> simp only [performEvent] at accepted <;> grind
    have finished : { m with messages := m.messages ++ [(job, result)] }.ledger =
        m.ledger.finish job := by
      rw [ledger, List.map_append]
      rfl
    rw [InOrder, finished]
    exact Ledger.Sound.finish settled.inOrder runs
  | _ => exact meets_pure settled

/-- A job that runs is one that curl still works on or one that it has a message of. -/
theorem meets_curlMultiPerform {m : ResourceHandleManager} (settled : Settled full m) :
    Meets ok InOrder (curlMultiPerform platform) m fun runningHandles m' =>
      Settled full m' ∧ (full → ∀ job ∈ m'.runningJobList,
        0 < runningHandles ∨ job ∈ m'.messages.map (·.1)) := by
  have performed : Meets ok InOrder (loop work (performTurn platform) ()) m
      fun _ m' => Settled full m' := by
    apply meets_loop fun _ => Settled full
    · exact fun _ _ settled' => settled'.inOrder
    · intro _ m' settled'
      apply (meets_performTurn platform settled').mono
      intro next m'' found
      cases next <;> exact found
    · exact settled
  apply meets_bind
  apply performed.mono
  intro _ m' settled'
  refine meets_read ⟨settled', fun holds job runs => ?_⟩
  by_cases finished : job ∈ m'.messages.map (·.1)
  · exact Or.inr finished
  · left
    have open_ : m'.isFinished job = false := by
      rw [← isFinished_iff] at finished
      simpa using finished
    apply List.length_pos_of_mem
    exact List.mem_filter.mpr ⟨settled'.added holds job runs, by simp [open_]⟩

/-- The job does not wait for a turn of the timer that will not come. -/
def Attended (runningHandles : Nat) (m : ResourceHandleManager) (job : Nat) : Prop :=
  m.downloadTimer = true ∨ 0 < runningHandles ∨ job ∈ m.messages.map (·.1)

theorem Attended.mono {runningHandles : Nat} {m m' : ResourceHandleManager}
    (attended : Attended runningHandles m job)
    (timer : m.downloadTimer = true → m'.downloadTimer = true)
    (messages : job ∈ m.messages.map (·.1) → job ∈ m'.messages.map (·.1)) :
    Attended runningHandles m' job :=
  attended.imp timer (Or.imp id messages)

variable {runningHandles : Nat}

/-- The job whose message is read, with the others attended to. -/
structure Reading (full : Prop) (runningHandles job : Nat) (m : ResourceHandleManager) : Prop where
  settled : Settled full m
  runs : job ∈ m.runningJobList
  others : full → ∀ other ∈ m.runningJobList, other ≠ job → Attended runningHandles m other

/-- No message is being read. -/
structure Read (full : Prop) (runningHandles : Nat) (m : ResourceHandleManager) : Prop where
  settled : Settled full m
  attended : full → ∀ job ∈ m.runningJobList, Attended runningHandles m job

theorem Reading.calm {m m' : ResourceHandleManager} (at_ : Reading full runningHandles job m)
    (inOrder : InOrder m') (calm : Calm m m') : Reading full runningHandles job m' where
  settled := at_.settled.calm inOrder calm
  runs := calm.running ▸ at_.runs
  others := by
    rw [calm.running]
    intro holds other runs different
    exact (at_.others holds other runs different).mono calm.timer (by rw [calm.messages]; exact id)

/-- The job leaves the manager and takes its transfer with it. -/
theorem Reading.leave {m m' : ResourceHandleManager} (at_ : Reading full runningHandles job m)
    (left : m'.ledger = m.ledger.leave job) (timer : m'.downloadTimer = m.downloadTimer) :
    Read full runningHandles m' := by
  have running : m'.runningJobList = m.runningJobList.erase job := congrArg Ledger.running left
  have multi : m'.multi = m.multi.erase job := congrArg Ledger.multi left
  have messages : m'.messages.map (·.1) = (m.messages.map (·.1)).filter (· ≠ job) :=
    congrArg Ledger.finished left
  have inOrder : InOrder m' := by
    rw [InOrder, left]
    exact Ledger.Sound.leave at_.settled.inOrder at_.runs
  have nodup : m.runningJobList.Nodup := Ledger.Sound.running at_.settled.inOrder
  have others : ∀ other ∈ m'.runningJobList, other ∈ m.runningJobList ∧ other ≠ job := by
    intro other member
    rw [running, nodup.mem_erase_iff] at member
    exact member.symm
  refine ⟨⟨inOrder, ?_, ?_⟩, ?_⟩
  · exact (congrArg Ledger.starting left).trans at_.settled.free
  · intro holds other member
    obtain ⟨before, different⟩ := others other member
    rw [multi, List.mem_erase_of_ne different]
    exact at_.settled.added holds other before
  · intro holds other member
    obtain ⟨before, different⟩ := others other member
    apply (at_.others holds other before different).mono
    · exact fun active => timer.trans active
    · intro pending
      rw [messages]
      exact List.mem_filter.mpr ⟨pending, by simpa using different⟩

theorem Read.cookies {m : ResourceHandleManager} (at_ : Read full runningHandles m)
    (cookies : CookieShare) : Read full runningHandles { m with cookies } :=
  ⟨at_.settled.cookies cookies, at_.attended⟩

theorem meets_leaveCurl {m : ResourceHandleManager} (at_ : Reading full runningHandles job m) :
    Meets ok InOrder (leaveCurl job) m fun _ m' => Read full runningHandles m' := by
  have left := at_.leave (m.ledger_leaveCurl job) (m.removeRunningJob_downloadTimer job)
  apply meets_bind
  apply meets_update
  apply meets_bind
  apply meets_update
  apply meets_bind
  exact meets_update (meets_update (left.cookies _))

/-- The transfer is not lost when a challenge is answered. -/
def ReaddsSucceed (ok : ResourceHandleManager → Event → Prop) : Prop :=
  ∀ m code, m.starting = none → ¬ok m (.multiAdd (.error code))

theorem meets_repeatTransfer {m : ResourceHandleManager} (succeed : full → ReaddsSucceed ok)
    (at_ : Reading full runningHandles job m) (httpcode : Nat) :
    Meets ok InOrder (repeatTransfer job httpcode) m fun _ m' => Read full runningHandles m' := by
  -- the timer is started in any case, so that it remains to keep the books
  have awake : ∀ m' : ResourceHandleManager, Settled full m' →
      Meets ok InOrder (do
        if !(← read (·.downloadTimer)) then
          update fun m => m.startOneShot) m' fun _ m' => Read full runningHandles m' := by
    intro m' settled
    apply meets_bind
    apply meets_read
    apply meets_ite
    · exact fun _ => meets_update
        ⟨⟨settled.inOrder, settled.free, settled.added⟩, fun _ _ _ => Or.inl rfl⟩
    · intro active
      exact meets_pure ⟨settled, fun _ _ _ => Or.inl (by simpa using active)⟩
  have detached : ∀ m' : ResourceHandleManager, m'.ledger = m.ledger.detach job →
      Meets ok InOrder (curlMultiAdd job >>= fun _ => do
        if !(← read (·.downloadTimer)) then
          update fun m => m.startOneShot) m' fun _ m' => Read full runningHandles m' := by
    intro m' same
    have inOrder : InOrder m' := by
      rw [InOrder, same]
      exact Ledger.Sound.detach at_.settled.inOrder
    have free : m'.starting = none := (congrArg Ledger.starting same).trans at_.settled.free
    have running : m'.runningJobList = m.runningJobList := congrArg Ledger.running same
    have multi : m'.multi = m.multi.erase job := congrArg Ledger.multi same
    have nodup : m.multi.Nodup := Ledger.Sound.multi at_.settled.inOrder
    apply meets_bind
    apply meets_curlMultiAdd inOrder
    · intro code fine
      apply awake
      exact ⟨inOrder, free, fun holds => absurd fine (succeed holds m' code free)⟩
    · intro ret _
      apply awake
      refine ⟨?_, free, fun holds other runs => ?_⟩
      · rw [InOrder, ledger_curlMultiAddHandle]
        apply Ledger.Sound.attach inOrder
        · change job ∈ m'.runningJobList
          rw [running]
          exact at_.runs
        · change job ∉ m'.multi
          rw [multi, nodup.mem_erase_iff]
          exact fun member => member.1 rfl
      · have before := at_.settled.added holds other (running ▸ runs)
        by_cases same : other = job
        · exact List.mem_append_right _ (List.mem_singleton.mpr same)
        · apply List.mem_append_left
          rw [multi]
          exact (List.mem_erase_of_ne same).mpr before
  apply meets_bind
  apply meets_update
  apply meets_ite
  · intro _
    apply meets_bind
    apply meets_update
    exact detached _ (ledger_curlMultiRemoveHandle m job)
  · intro _
    exact detached _ (ledger_curlMultiRemoveHandle m job)

theorem meets_removeFromCurl {m : ResourceHandleManager} (succeed : full → ReaddsSucceed ok)
    (at_ : Reading full runningHandles job m) :
    Meets ok InOrder (removeFromCurl job) m fun _ m' => Read full runningHandles m' := by
  have handle : (m.jobs job).d.handle = true :=
    Ledger.Sound.handle at_.settled.inOrder job at_.runs
  apply meets_bind
  apply meets_read
  rw [if_neg (by simp [handle])]
  apply meets_ite
  · intro _
    apply meets_bind
    apply meets_read
    apply meets_bind
    apply meets_read
    apply meets_bind
    apply meets_update
    have written : Reading full runningHandles job
        (m.write job fun d => { d with doAuthChallenge := false }) :=
      at_.calm (at_.settled.inOrder.of_ledger (m.ledger_write job fun _ => rfl))
        (m.calm_write job _)
    apply meets_ite
    · exact fun _ => meets_leaveCurl written
    · exact fun _ => meets_ite (fun _ => meets_repeatTransfer succeed written _)
        fun _ => meets_leaveCurl written
  · exact fun _ => meets_leaveCurl at_

theorem meets_transferDone {m : ResourceHandleManager} (succeed : full → ReaddsSucceed ok)
    (at_ : Reading full runningHandles job m) (result : Nat) :
    Meets ok InOrder (transferDone platform job result) m
      fun _ m' => Read full runningHandles m' := by
  have inform : ∀ {m' : ResourceHandleManager} (notice : Notice),
      Reading full runningHandles job m' →
      Meets ok InOrder (notifyClient platform job notice >>= fun _ => removeFromCurl job) m'
        fun _ m' => Read full runningHandles m' := by
    intro m' notice at'
    apply meets_bind
    apply (steady_notifyClient platform job notice m' at'.settled.inOrder).mono
    intro _ m'' ⟨inOrder, calm⟩
    exact meets_removeFromCurl succeed (at'.calm inOrder calm)
  apply meets_bind
  apply meets_read
  apply meets_ite
  · intro _
    apply meets_bind
    exact (meets_removeFromCurl succeed at_).mono fun _ _ done => meets_pure done
  · intro _
    apply meets_ite
    · intro _
      apply meets_ite
      · intro _
        apply meets_bind
        apply (steady_handleLocalReceiveResponse platform job m at_.settled.inOrder).mono
        intro _ m' ⟨inOrder, calm⟩
        apply meets_bind
        apply meets_read
        apply meets_ite
        · intro _
          apply meets_bind
          exact (meets_removeFromCurl succeed (at_.calm inOrder calm)).mono
            fun _ _ done => meets_pure done
        · exact fun _ => inform _ (at_.calm inOrder calm)
      · exact fun _ => inform _ at_
    · exact fun _ => inform _ at_

theorem meets_messageTurn {m : ResourceHandleManager} (succeed : full → ReaddsSucceed ok)
    (at_ : Read full runningHandles m) :
    Meets ok InOrder (messageTurn platform ()) m fun next m' =>
      match next with
      | .again _ => Read full runningHandles m'
      | .done _ => Read full runningHandles m' ∧ m'.messages = [] := by
  apply meets_bind
  apply meets_read
  cases same : m.messages with
  | nil => exact meets_pure ⟨at_, same⟩
  | cons message messages =>
    obtain ⟨job, result⟩ := message
    have reported : (job, result) ∈ m.messages := same ▸ List.mem_cons_self
    have runs : job ∈ m.runningJobList := by
      have sound := at_.settled.inOrder
      exact sound.added job (sound.finished job (List.mem_map_of_mem reported))
    have inOrder : InOrder { m with messages } := by
      apply Ledger.Sound.read at_.settled.inOrder
      rw [ledger, same]
      exact List.subset_cons_self ..
    have reading : Reading full runningHandles job { m with messages } := by
      refine ⟨⟨inOrder, at_.settled.free, at_.settled.added⟩, runs, ?_⟩
      intro holds other listed different
      refine (at_.attended holds other listed).mono (fun active => active) ?_
      rw [same, List.map_cons, List.mem_cons]
      exact fun pending => pending.resolve_left different
    apply meets_bind
    apply meets_update
    apply meets_bind
    exact (meets_transferDone platform succeed reading result).mono fun _ _ done => meets_pure done

theorem meets_messages {m : ResourceHandleManager} (succeed : full → ReaddsSucceed ok)
    (at_ : Read full runningHandles m) :
    Meets ok InOrder (loop work (messageTurn platform) ()) m fun _ m' =>
      Read full runningHandles m' ∧ m'.messages = [] := by
  apply meets_loop fun _ => Read full runningHandles
  · exact fun _ _ at_ => at_.settled.inOrder
  · intro _ m' at_
    apply (meets_messageTurn platform succeed at_).mono
    intro next m'' found
    cases next <;> exact found
  · exact at_

theorem Read.cancelJobs {m : ResourceHandleManager} (at_ : Read full runningHandles m)
    (empty : m.messages = []) (jobs : Nat) :
    Read full runningHandles (m.cancelJobs jobs) ∧ (m.cancelJobs jobs).messages = [] := by
  induction jobs generalizing m with
  | zero => exact ⟨at_, empty⟩
  | succ jobs ih =>
    rw [ResourceHandleManager.cancelJobs]
    cases found : m.cancelledJob with
    | none => exact ⟨at_, empty⟩
    | some job =>
      have reading : Reading full runningHandles job m :=
        ⟨at_.settled, List.mem_of_find?_eq_some found, fun holds other runs _ =>
          at_.attended holds other runs⟩
      have left := m.ledger_removeCancelledJob job
      apply ih (reading.leave left (m.removeCancelledJob_downloadTimer job))
      have messages : (m.removeCancelledJob job).messages.map (·.1) =
          (m.messages.map (·.1)).filter (· ≠ job) := congrArg Ledger.finished left
      rw [empty] at messages
      exact List.map_eq_nil_iff.mp messages

/-- As long as there is anything to do the timer is active. -/
def Awake (m : ResourceHandleManager) : Prop :=
  m.scheduledJobList ≠ [] ∨ m.runningJobList ≠ [] → m.downloadTimer = true

/-- What holds between two turns of the event loop. -/
structure AtRest (full : Prop) (m : ResourceHandleManager) : Prop where
  settled : Settled full m
  awake : full → Awake m

theorem Awake.calm {m m' : ResourceHandleManager} (awake : Awake m) (calm : Calm m m') :
    Awake m' := by
  rintro (waits | runs)
  · exact (calm.woken waits).elim (fun before => calm.timer (awake (Or.inl before))) id
  · exact calm.timer (awake (Or.inr (calm.running ▸ runs)))

theorem meets_downloadTimerCallback {m : ResourceHandleManager} (succeed : full → ReaddsSucceed ok)
    (settled : Settled full m) :
    Meets ok InOrder (downloadTimerCallback platform) m fun _ m' => AtRest full m' := by
  apply meets_bind
  apply (meets_startScheduledJobs platform settled).mono
  rintro _ m₁ ⟨launched, -⟩
  apply meets_bind
  apply (meets_curlMultiPerform platform launched.settled).mono
  intro runningHandles m₂ ⟨settled₂, pending⟩
  apply meets_bind
  have read : Read full runningHandles m₂ :=
    ⟨settled₂, fun holds job runs => Or.inr (pending holds job runs)⟩
  apply (meets_messages platform succeed read).mono
  intro _ m₃ ⟨read₃, empty₃⟩
  obtain ⟨cancelled, empty⟩ := read₃.cancelJobs empty₃ m₃.runningJobList.length
  have read₄ : Read full runningHandles m₃.cancelScheduledJobs := cancelled.cookies _
  have empty₄ : m₃.cancelScheduledJobs.messages = [] := empty
  apply meets_bind
  apply meets_update
  apply meets_bind
  apply (meets_startScheduledJobs platform read₄.settled).mono
  intro started m₅ ⟨launched₅, idle⟩
  apply meets_bind
  apply meets_read
  apply meets_ite
  · intro _
    exact meets_update ⟨⟨launched₅.settled.inOrder, launched₅.settled.free, launched₅.settled.added⟩,
      fun _ _ => rfl⟩
  · intro stop
    refine meets_pure ⟨launched₅.settled, fun holds work => ?_⟩
    by_contra inactive
    -- nothing was started and curl runs nothing, so no job was running before, and none is left
    have still : started = false ∧ runningHandles = 0 := by
      simp only [Bool.not_eq_true] at inactive
      simpa [inactive] using stop
    obtain ⟨same, none_⟩ : m₅.runningJobList = m₃.cancelScheduledJobs.runningJobList ∧
        (m₅.scheduledJobList = [] ∨ m₅.runningJobList ≠ []) :=
      ⟨launched₅.same still.1, idle still.1⟩
    have before : m₃.cancelScheduledJobs.runningJobList = [] := by
      apply List.eq_nil_iff_forall_not_mem.mpr
      intro job runs
      rcases read₄.attended holds job runs with active | some_ | message
      · exact inactive (launched₅.timer active)
      · omega
      · rw [empty₄] at message
        cases message
    rw [before] at same
    rcases work with waits | runs
    · exact none_.elim waits fun some_ => some_ same
    · exact runs same

theorem meets_dispatch {m : ResourceHandleManager} (succeed : full → ReaddsSucceed ok)
    (rest : AtRest full m) (event : Event) :
    Meets ok InOrder (dispatch platform event) m fun _ m' => AtRest full m' := by
  have client : ∀ event, AtRest full (actOutside platform m event) := by
    intro event
    unfold actOutside
    cases clientEvent m event with
    | none => exact rest
    | some act =>
      obtain ⟨inOrder, calm⟩ := clientAct_calm rest.settled.inOrder platform act
      exact ⟨rest.settled.calm inOrder calm, fun holds => (rest.awake holds).calm calm⟩
  cases event with
  | timer =>
    apply meets_bind
    apply meets_read
    apply meets_ite
    · intro _
      apply meets_bind
      apply meets_update
      have settled := rest.settled
      exact meets_downloadTimerCallback platform succeed
        ⟨settled.inOrder, settled.free, settled.added⟩
    · exact fun _ => meets_pure rest
  | setProxyInfo host port username password auth =>
    apply meets_update
    obtain ⟨inOrder, free, scheduled, running⟩ := sound_setProxyInfo rest.settled.inOrder
      rest.settled.free host port username password auth
    refine ⟨⟨inOrder, free, fun _ => ?_⟩, fun _ => ?_⟩
    · simp [running]
    · simp [Awake, scheduled, running]
  | setMaxTCPConnections number =>
    apply meets_update
    unfold ResourceHandleManager.setMaxTCPConnections
    split
    · exact ⟨⟨rest.settled.inOrder, rest.settled.free, rest.settled.added⟩, rest.awake⟩
    · exact rest
  | _ => exact meets_update (client _)

end

end WkcBrowser.Network

/-! Which job lists the manager can have, and which references it holds then. -/

namespace WkcBrowser.Network

open Wtf Lib.Interaction Program ResourceHandleManager

/-- Every order of calls from outside, of what clients do while they are called and of what curl
reports. -/
def AnyEvent (_ : ResourceHandleManager) (_ : Event) : Prop := True

theorem atRest_init (full : Prop) : AtRest full {} where
  settled := by
    refine ⟨?_, rfl, by simp⟩
    constructor <;> simp [ledger, Ledger.Held]
  awake := by simp [Awake]

/-- A job is in one list at most and at most once in it. The reference that `add` takes is released
when the job is in no list and not about to be started either, and only then. -/
theorem jobs_held_once {platform : Platform} {m : ResourceHandleManager}
    (reachable : Reachable (dispatch platform) AnyEvent {} m) :
    m.scheduledJobList.Nodup ∧ m.runningJobList.Nodup ∧
      (∀ job ∈ m.scheduledJobList, job ∉ m.runningJobList) ∧
      (∀ job, m.starting = some job → job ∉ m.scheduledJobList ∧ job ∉ m.runningJobList) ∧
      (∀ job, job ∈ m.scheduledJobList ∨ job ∈ m.runningJobList → job < m.created) ∧
      (∀ job < m.created, (m.jobs job).refs = 1) ∧
      (∀ job < m.created, (m.jobs job).derefs =
        if job ∈ m.scheduledJobList ∨ job ∈ m.runningJobList ∨ m.starting = some job then 0
        else 1) ∧
      (Idle (dispatch platform) AnyEvent {} m → m.starting = none) := by
  have kept : ∀ s event, AtRest False s → AnyEvent s event →
      Meets AnyEvent InOrder (dispatch platform event) s fun _ s' => AtRest False s' :=
    fun s event rest _ => meets_dispatch platform False.elim rest event
  have sound : m.ledger.Sound := reachable.invariant (atRest_init False)
    (fun s rest => rest.settled.inOrder) kept
  refine ⟨sound.scheduled, sound.running, sound.apart, sound.started, ?_, sound.taken,
    sound.released, ?_⟩
  · rintro job (waits | runs)
    · exact sound.known job (Or.inl waits)
    · exact sound.known job (Or.inr (Or.inl runs))
  · intro idle
    have rest := idle.invariant (atRest_init False) kept
    exact rest.settled.free

def examplePage : ResourceRequest := { url := text "http://a/b" }

def addedPage : ResourceHandleManager :=
  (dispatch examplePlatform (.add examplePage) {} []).state

/-- The timer starts the page. -/
def startedPage : ResourceHandleManager :=
  (dispatch examplePlatform .timer addedPage [.easyInit true, .multiAdd .ok]).state

theorem jobs_held_once_startedPage : startedPage.runningJobList = [0] ∧
    startedPage.runningJobList.Nodup ∧ (startedPage.jobs 0).derefs = 0 := by
  have added : Idle (dispatch examplePlatform) AnyEvent {} addedPage :=
    .call .init (Event.add examplePage) trivial [] (fun _ _ => trivial) rfl
  have started : Reachable (dispatch examplePlatform) AnyEvent {} startedPage :=
    .waiting added Event.timer trivial [.easyInit true, .multiAdd .ok] (fun _ _ => trivial)
      (by decide)
  obtain ⟨-, nodup, -⟩ := jobs_held_once started
  exact ⟨by decide, nodup, by decide⟩

end WkcBrowser.Network
