import WkcBrowser.Network.Scheduling
import WkcBrowser.Network.TimerTurn

/-! Every run of the manager is a run of the schedule. In every state the manager can be in, its
schedule is one that the acts of the schedule lead to. -/

namespace WkcBrowser.Network

open Wtf Lib.Interaction Program ResourceHandleManager
open Lib.Loop (Turn)

/-- Acts that are fine whenever they can happen. -/
def Act.plain : Act → Bool
  | .request | .refuse _ | .replace => false
  | _ => true

/-- The acts that the events lead to are fine. -/
structure Admits (ok : ResourceHandleManager → Event → Prop) (fine : Schedule → Act → Prop) :
    Prop where
  plain : ∀ s act, act.plain = true → fine s act
  request : ∀ m, ok m .clearCookies → fine m.schedule .request
  unset : ∀ s job, s.handle job = false → fine s (.refuse job)
  refused : ∀ m job code, ok m (.multiAdd (.error code)) → m.starting = some job →
    fine m.schedule (.refuse job)
  replace : ∀ m host port username password auth,
    ok m (.setProxyInfo host port username password auth) → fine m.schedule .replace

/-- The acts so far were fine. -/
def OnSchedule (fine : Schedule → Act → Prop) (m : ResourceHandleManager) : Prop :=
  m.schedule.Reached fine

theorem OnSchedule.write {fine : Schedule → Act → Prop} {m : ResourceHandleManager}
    (reached : OnSchedule fine m) (job : Nat)
    {f : ResourceHandleInternal → ResourceHandleInternal}
    (same : ∀ d, (f d).handle = d.handle ∧ (f d).isJSRequestatFirst = d.isJSRequestatFirst) :
    OnSchedule fine (m.write job f) := by
  rw [OnSchedule, m.schedule_write job same]
  exact reached

section
variable {ok : ResourceHandleManager → Event → Prop} {fine : Schedule → Act → Prop}
variable {platform : Platform} {m : ResourceHandleManager} {job : Nat}

theorem clientAct_played (admits : Admits ok fine)
    (calm : ∀ job, m.starting = some job → (m.jobs job).d.handle = false) {event act : Event}
    (accepted : clientEvent m event = some act) (okay : ok m event) :
    m.schedule.Played fine (clientAct platform m act).schedule := by
  have one : ∀ {act : Act} {s : Schedule}, act.byClient = true → fine m.schedule act →
      m.schedule.Step act s → m.schedule.Played fine s :=
    fun byClient allowed step => .single ⟨_, byClient, allowed, step⟩
  cases act with
  | add request =>
    obtain ⟨script, same⟩ := m.schedule_add platform request
    rw [clientAct, same]
    exact one rfl (admits.plain _ _ rfl) (.submit _ script)
  | cancel job =>
    rcases (m.enter (.cancelled job)).schedule_cancel job with ⟨waits, same⟩ | ⟨-, same⟩
    · rw [clientAct, same]
      exact one rfl (admits.plain _ _ rfl) (.drop waits)
    · rw [clientAct, same]
      exact .refl
  | releaseClient job =>
    have same := schedule_write (m.enter (.released job)) job
      (f := fun d => { d with client := false }) fun _ => ⟨rfl, rfl⟩
    rw [clientAct, same]
    exact .refl
  | receivedCredential job challenge credential =>
    rw [clientAct, schedule_receivedCredential]
    exact .refl
  | receivedRequestToContinueWithoutCredential job challenge =>
    rw [clientAct, schedule_continueWithoutCredential]
    exact .refl
  | receivedProxyCredential job credential =>
    have same : (m.receivedProxyCredential job credential).schedule = m.schedule :=
      m.schedule_doAuthChallenge job
    rw [clientAct, same]
    exact .refl
  | clearCookies =>
    obtain rfl : event = .clearCookies := by
      cases event <;> simp only [clientEvent, Option.some.injEq, reduceCtorEq] at accepted <;>
        first | rfl | (split at accepted <;> cases accepted)
    exact one rfl (admits.request m okay) (.request calm)
  | _ => exact .refl

/-- While a client is called the schedule changes by the acts of clients only. -/
theorem closed_played (admits : Admits ok fine) {origin : Schedule}
    (calm : ∀ job, origin.starting = some job → origin.handle job = false) :
    Closed platform ok fun m => origin.Played fine m.schedule where
  write := fun {m job f} played same => by
    rw [m.schedule_write job same]
    exact played
  enter := fun _ played => played
  act := fun {m event act} played accepted okay =>
    played.trans (clientAct_played admits
      (fun job starts => played.handle (calm job (played.starting.symm.trans starts))) accepted okay)

/-- What is kept while a procedure only calls clients. -/
theorem Meets.of_keeps {α : Type} (admits : Admits ok fine) {p : Procedure α}
    (keeps : ∀ {keeps}, Closed platform ok keeps → Keeps ok keeps p)
    (calm : ∀ job, m.starting = some job → (m.jobs job).d.handle = false)
    (reached : OnSchedule fine m) :
    Meets ok (OnSchedule fine) p m fun _ m' =>
      m.schedule.Played fine m'.schedule := by
  have closed : Closed platform ok fun m' => m.schedule.Played fine m'.schedule :=
    closed_played admits calm
  have kept := keeps closed m .refl
  exact kept.waits fun m' played => reached.played played

/-- The job that is started was given up, or it is to be placed among the running ones. -/
def Begun (fine : Schedule → Act → Prop) (job : Nat) (m : ResourceHandleManager) : Prop :=
  (m.jobs job).d.cancelled = true ∧ m.starting = some job ∧ OnSchedule fine m ∧
      fine m.schedule (.refuse job) ∨
    (m.jobs job).d.cancelled = false ∧ ∃ before : ResourceHandleManager,
      OnSchedule fine before ∧ before.starting = some job ∧
        (before.jobs job).d.handle = true ∧
        m = (before.curlMultiAddHandle job).appendRunningJob job

theorem begun_cancel (inOrder : InOrder m) (starts : m.starting = some job)
    (reached : OnSchedule fine m) (allowed : fine m.schedule (.refuse job)) :
    Begun fine job (m.cancel job) := by
  have out : job ∉ m.scheduledJobList := (inOrder.started job starts).1
  have same : (m.cancel job).schedule = m.schedule :=
    ((m.schedule_cancel job).resolve_left fun dropped => out dropped.1).2
  have kept : OnSchedule fine (m.cancel job) := by
    rw [OnSchedule, same]
    exact reached
  refine Or.inl ⟨cancel_cancelled out, ?_, kept, same ▸ allowed⟩
  exact (congrArg Schedule.starting same).trans starts

theorem plays_initializeHandle (admits : Admits ok fine) (starts : m.starting = some job)
    (reached : OnSchedule fine m) :
    Meets ok (OnSchedule fine) (initializeHandle platform job) m
      fun _ m' => OnSchedule fine m' := by
  apply meets_bind
  apply meets_await reached
  intro event found _ _
  have set : OnSchedule fine (m.write job fun d => { d with handle := found }) := by
    have same := m.schedule_setHandle job (f := fun d => { d with handle := found }) (b := found)
      fun _ => ⟨rfl, rfl⟩
    rw [OnSchedule, same]
    exact reached.step (admits.plain _ _ rfl) (.setHandle starts found)
  apply meets_bind
  apply meets_update
  apply meets_ite
  · exact fun _ => meets_pure set
  · exact fun _ => meets_update (set.write job fun _ => ⟨rfl, rfl⟩)

theorem plays_startJob (admits : Admits ok fine) (inOrder : InOrder m)
    (starts : m.starting = some job) (unset : (m.jobs job).d.handle = false)
    (reached : OnSchedule fine m) :
    Meets ok (OnSchedule fine) (startJob platform job) m
      fun _ m' => Begun fine job m' := by
  have calm : ∀ other, m.starting = some other → (m.jobs other).d.handle = false := by
    intro other same
    obtain rfl := Option.some.inj (starts.symm.trans same)
    exact unset
  apply meets_bind
  apply meets_read
  apply meets_ite
  · intro _
    apply meets_bind
    apply ((Meets.of_keeps admits (fun closed => keeps_parseDataUrl closed job) calm reached).and
      (steady_parseDataUrl platform job m inOrder)).mono
    intro _ m' ⟨played, inOrder', calm'⟩
    apply meets_update
    apply begun_cancel inOrder' (calm'.starting.trans starts) (reached.played played)
    exact admits.unset _ job (played.handle unset)
  · intro _
    have begins : Starting job m m := ⟨inOrder, .refl m, starts⟩
    apply meets_bind
    apply ((plays_initializeHandle admits starts reached).and
      (meets_initializeHandle platform begins)).mono
    intro _ m' ⟨reached', at_, fresh⟩
    apply meets_bind
    apply meets_read
    apply meets_ite
    · intro missing
      have handle : (m'.jobs job).d.handle = false := by simpa using missing
      apply meets_update
      exact begun_cancel at_.inOrder at_.starting reached' (admits.unset _ job handle)
    · intro set
      have handle : (m'.jobs job).d.handle = true := by simpa using set
      have placed : Begun fine job ((m'.curlMultiAddHandle job).appendRunningJob job) := by
        refine Or.inr ⟨?_, m', reached', at_.starting, handle, rfl⟩
        rw [appendRunningJob_d]
        exact fresh handle
      apply meets_bind
      apply meets_bind
      apply meets_await reached'
      intro event ret accepted okay
      cases ret with
      | error code =>
        have allowed : fine m'.schedule (.refuse job) := by
          cases event <;> simp only [multiAddEvent, Option.some.injEq, reduceCtorEq] at accepted
          subst accepted
          exact admits.refused m' job code okay at_.starting
        exact meets_pure (meets_update (begun_cancel at_.inOrder at_.starting reached' allowed))
      | ok => exact meets_bind (meets_update (meets_pure (meets_update placed)))
      | callMultiPerform => exact meets_bind (meets_update (meets_pure (meets_update placed)))

/-- What holds between the steps of a turn. -/
structure Planned (fine : Schedule → Act → Prop) (m : ResourceHandleManager) : Prop where
  settled : Settled False m
  reached : OnSchedule fine m

theorem Planned.calm (planned : Planned fine m) :
    ∀ job, m.starting = some job → (m.jobs job).d.handle = false := by
  intro job starts
  rw [planned.settled.free] at starts
  cases starts

theorem plays_startTurn (admits : Admits ok fine) (planned : Planned fine m) (started : Bool) :
    Meets ok (OnSchedule fine) (startTurn platform started) m
      fun _ m' => OnSchedule fine m' := by
  have sound : m.ledger.Sound := planned.settled.inOrder
  apply meets_bind
  apply meets_read
  apply meets_ite
  · exact fun _ => meets_pure planned.reached
  intro room
  apply meets_ite
  · exact fun _ => meets_pure planned.reached
  intro challenge
  rw [id] at room challenge ⊢
  cases shifted : m.shiftScheduledJob with
  | none => exact meets_pure planned.reached
  | some next =>
    obtain ⟨job, rest⟩ := next
    obtain ⟨waits, rfl⟩ := m.shiftScheduledJob_eq job shifted
    obtain ⟨unheld, passes⟩ := m.shiftScheduledJob_next job shifted
    have unset : m.schedule.handle job = false := by
      rw [Bool.eq_false_iff]
      intro set
      rcases planned.reached.owned job set with runs | starts
      · exact sound.apart job waits runs
      · exact absurd (planned.settled.free.symm.trans starts) (by simp)
    have fits : (Start.mk job (m.jobs job).d.isJSRequestatFirst m.runningJobList
        m.tcpConnections.1 m.willChallengeProxyAuth m.jsSequential).Fits m.schedule := by
      refine ⟨planned.settled.free, ?_, ?_, rfl, rfl, rfl, unheld, passes⟩
      · exact Nat.lt_of_not_le fun full => room (Or.inr full)
      · intro expected
        by_contra busy
        exact challenge ⟨expected, List.length_pos_of_ne_nil busy⟩
    have taken : OnSchedule fine
        ({ m with scheduledJobList := m.scheduledJobList.erase job }.take job) :=
      planned.reached.step (admits.plain _ _ rfl) (.take fits)
    have inOrder : InOrder ({ m with scheduledJobList := m.scheduledJobList.erase job }.take job) :=
      Ledger.Sound.take sound waits planned.settled.free
    apply meets_bind
    apply meets_update
    apply meets_bind
    apply (plays_startJob admits inOrder rfl unset taken).mono
    rintro _ m' (⟨cancelled, starts, reached, allowed⟩ | ⟨kept, before, reached, starts, handle, rfl⟩)
    · apply meets_bind
      apply meets_read
      rw [if_pos cancelled]
      apply meets_bind
      apply meets_update
      apply meets_bind
      apply meets_update
      apply meets_bind
      refine meets_update (meets_pure ?_)
      rw [OnSchedule, m'.schedule_refuse job]
      exact reached.step allowed (.refuse starts)
    · apply meets_bind
      apply meets_read
      rw [if_neg (by simp [kept])]
      apply meets_bind
      refine meets_update (meets_pure ?_)
      rw [OnSchedule, before.schedule_place job]
      exact reached.step (admits.plain _ _ rfl) (.place starts handle)

theorem plays_startScheduledJobs (admits : Admits ok fine) (planned : Planned fine m) :
    Meets ok (OnSchedule fine) (startScheduledJobs platform) m
      fun _ m' => Planned fine m' := by
  apply meets_loop fun _ => Planned fine
  · exact fun _ _ planned => planned.reached
  · intro started m' planned
    have launching : Launching False m' started m' := ⟨planned.settled, id, fun _ => rfl⟩
    apply ((plays_startTurn admits planned started).and
      (meets_startTurn platform launching)).mono
    intro next m'' ⟨reached, found⟩
    cases next with
    | again started' => exact ⟨found.settled, reached⟩
    | done started' => exact ⟨found.1.settled, reached⟩
  · exact planned

/-- A callback of curl. -/
theorem plays_callback {α : Type} (admits : Admits ok fine) (planned : Planned fine m)
    {p : Procedure α} (keeps : ∀ {keeps}, Closed platform ok keeps → Keeps ok keeps p) :
    Meets ok (OnSchedule fine) p m fun _ m' => Planned fine m' ∧ Calm m m' := by
  have steady : Steady ok p := .of_keeps platform keeps
  apply ((Meets.of_keeps admits keeps planned.calm planned.reached).and
    (steady m planned.settled.inOrder)).mono
  intro _ m' ⟨played, inOrder, calm⟩
  exact ⟨⟨planned.settled.calm inOrder calm, planned.reached.played played⟩, calm⟩

theorem plays_performTurn (admits : Admits ok fine) (planned : Planned fine m) :
    Meets ok (OnSchedule fine) (performTurn platform ()) m fun _ m' => OnSchedule fine m' := by
  apply meets_bind
  apply meets_await planned.reached
  intro event report _ _
  cases report with
  | header job line info =>
    have received : Planned fine (m.change job fun handle =>
        { handle with transfer := handle.transfer.receive line info }) := by
      refine ⟨⟨?_, planned.settled.free, planned.settled.added⟩, ?_⟩
      · exact planned.settled.inOrder.of_ledger
          (m.ledger_transfer job fun handle => handle.transfer.receive line info)
      · rw [OnSchedule, m.schedule_keep job ⟨rfl, rfl⟩]
        exact planned.reached
    apply meets_bind
    apply meets_update
    apply meets_bind
    apply (plays_callback admits received fun closed => keeps_headerCallback closed job line).mono
    exact fun _ m' found => meets_pure found.1.reached
  | body job data =>
    apply meets_bind
    apply (plays_callback admits planned fun closed => keeps_writeCallback closed job data).mono
    exact fun _ m' found => meets_pure found.1.reached
  | finished job result => exact meets_bind (meets_update (meets_pure planned.reached))
  | _ => exact meets_pure planned.reached

theorem plays_curlMultiPerform (admits : Admits ok fine) (planned : Planned fine m) :
    Meets ok (OnSchedule fine) (curlMultiPerform platform) m fun _ m' => Planned fine m' := by
  have performed : Meets ok (OnSchedule fine) (loop work (performTurn platform) ()) m
      fun _ m' => Planned fine m' := by
    apply meets_loop fun _ => Planned fine
    · exact fun _ _ planned => planned.reached
    · intro _ m' planned
      apply ((plays_performTurn admits planned).and
        (meets_performTurn platform planned.settled)).mono
      intro next m'' ⟨reached, settled⟩
      cases next <;> exact ⟨settled, reached⟩
    · exact planned
  apply meets_bind
  apply performed.mono
  exact fun _ m' planned => meets_read planned

theorem plays_leaveCurl (admits : Admits ok fine) (planned : Planned fine m)
    (runs : job ∈ m.runningJobList) :
    Meets ok (OnSchedule fine) (leaveCurl job) m fun _ m' => OnSchedule fine m' := by
  have left := m.schedule_leaveCurl job runs
  apply meets_bind
  apply meets_update
  apply meets_bind
  apply meets_update
  apply meets_bind
  refine meets_update (meets_update ?_)
  rw [OnSchedule, left]
  exact planned.reached.step (admits.plain _ _ rfl) (.leave planned.settled.free runs)

theorem plays_repeatTransfer (reached : OnSchedule fine m) (httpcode : Nat) :
    Meets ok (OnSchedule fine) (repeatTransfer job httpcode) m fun _ m' => OnSchedule fine m' := by
  have awake : ∀ m' : ResourceHandleManager, OnSchedule fine m' →
      Meets ok (OnSchedule fine) (do
        if !(← read (·.downloadTimer)) then
          update fun m => m.startOneShot) m' fun _ m' => OnSchedule fine m' := by
    intro m' reached
    apply meets_bind
    apply meets_read
    exact meets_ite (fun _ => meets_update reached) fun _ => meets_pure reached
  have again : ∀ m' : ResourceHandleManager, OnSchedule fine m' →
      Meets ok (OnSchedule fine) (curlMultiAdd job >>= fun _ => do
        if !(← read (·.downloadTimer)) then
          update fun m => m.startOneShot) m' fun _ m' => OnSchedule fine m' := by
    intro m' reached
    have added : OnSchedule fine (m'.curlMultiAddHandle job) := by
      rw [OnSchedule, schedule_curlMultiAddHandle]
      exact reached
    apply meets_bind
    apply meets_bind
    apply meets_await reached
    intro event ret _ _
    cases ret with
    | error code => exact meets_pure (awake m' reached)
    | ok => exact meets_bind (meets_update (meets_pure (awake _ added)))
    | callMultiPerform => exact meets_bind (meets_update (meets_pure (awake _ added)))
  apply meets_bind
  apply meets_update
  apply meets_ite
  · intro _
    apply meets_bind
    apply meets_update
    exact again _ reached
  · exact fun _ => again _ reached

theorem plays_removeFromCurl (admits : Admits ok fine) (planned : Planned fine m)
    (runs : job ∈ m.runningJobList) :
    Meets ok (OnSchedule fine) (removeFromCurl job) m fun _ m' => OnSchedule fine m' := by
  apply meets_bind
  apply meets_read
  apply meets_ite
  · exact fun _ => meets_pure planned.reached
  intro _
  apply meets_ite
  · intro _
    have written : Planned fine (m.write job fun d => { d with doAuthChallenge := false }) := by
      refine ⟨?_, OnSchedule.write planned.reached job fun _ => ⟨rfl, rfl⟩⟩
      exact planned.settled.calm
        (planned.settled.inOrder.of_ledger (m.ledger_write job fun _ => rfl)) (m.calm_write job _)
    apply meets_bind
    apply meets_read
    apply meets_bind
    apply meets_read
    apply meets_bind
    apply meets_update
    apply meets_ite
    · exact fun _ => plays_leaveCurl admits written runs
    · intro _
      apply meets_ite
      · exact fun _ => plays_repeatTransfer written.reached _
      · exact fun _ => plays_leaveCurl admits written runs
  · exact fun _ => plays_leaveCurl admits planned runs

theorem plays_transferDone (admits : Admits ok fine) (planned : Planned fine m)
    (runs : job ∈ m.runningJobList) (result : Nat) :
    Meets ok (OnSchedule fine) (transferDone platform job result) m
      fun _ m' => OnSchedule fine m' := by
  have inform : ∀ {m : ResourceHandleManager} (notice : Notice), Planned fine m →
      job ∈ m.runningJobList →
      Meets ok (OnSchedule fine) (notifyClient platform job notice >>= fun _ => removeFromCurl job)
        m fun _ m' => OnSchedule fine m' := by
    intro m notice planned runs
    apply meets_bind
    apply (plays_callback admits planned fun closed => keeps_notifyClient closed job notice).mono
    intro _ m' ⟨planned', calm⟩
    exact plays_removeFromCurl admits planned' (calm.running ▸ runs)
  have remove : ∀ {m : ResourceHandleManager}, Planned fine m → job ∈ m.runningJobList →
      Meets ok (OnSchedule fine) (removeFromCurl job >>= fun _ => pure ()) m
        fun _ m' => OnSchedule fine m' := by
    intro m planned runs
    apply meets_bind
    exact (plays_removeFromCurl admits planned runs).mono fun _ _ reached => meets_pure reached
  apply meets_bind
  apply meets_read
  apply meets_ite
  · exact fun _ => remove planned runs
  intro _
  apply meets_ite
  · intro _
    apply meets_ite
    · intro _
      apply meets_bind
      apply (plays_callback admits planned
        fun closed => keeps_handleLocalReceiveResponse closed job).mono
      intro _ m' ⟨planned', calm⟩
      have runs' : job ∈ m'.runningJobList := calm.running ▸ runs
      apply meets_bind
      apply meets_read
      apply meets_ite
      · exact fun _ => remove planned' runs'
      · exact fun _ => inform _ planned' runs'
    · exact fun _ => inform _ planned runs
  · exact fun _ => inform _ planned runs

theorem plays_messageTurn (admits : Admits ok fine) (planned : Planned fine m) :
    Meets ok (OnSchedule fine) (messageTurn platform ()) m fun _ m' => OnSchedule fine m' := by
  apply meets_bind
  apply meets_read
  cases same : m.messages with
  | nil => exact meets_pure planned.reached
  | cons message messages =>
    obtain ⟨job, result⟩ := message
    have sound : m.ledger.Sound := planned.settled.inOrder
    have reported : (job, result) ∈ m.messages := same ▸ List.mem_cons_self
    have runs : job ∈ m.runningJobList :=
      sound.added job (sound.finished job (List.mem_map_of_mem reported))
    have inOrder : InOrder { m with messages } := by
      apply Ledger.Sound.read sound
      rw [ledger, same]
      exact List.subset_cons_self ..
    have reading : Planned fine { m with messages } :=
      ⟨⟨inOrder, planned.settled.free, planned.settled.added⟩, planned.reached⟩
    apply meets_bind
    apply meets_update
    apply meets_bind
    exact (plays_transferDone admits reading runs result).mono fun _ _ done => meets_pure done

theorem plays_messages (admits : Admits ok fine) {runningHandles : Nat}
    (at_ : Read False runningHandles m) (reached : OnSchedule fine m) :
    Meets ok (OnSchedule fine) (loop work (messageTurn platform) ()) m fun _ m' =>
      Read False runningHandles m' ∧ OnSchedule fine m' := by
  apply meets_loop fun _ m' => Read False runningHandles m' ∧ OnSchedule fine m'
  · exact fun _ _ kept => kept.2
  · intro _ m' ⟨at', reached'⟩
    have planned : Planned fine m' := ⟨at'.settled, reached'⟩
    apply ((plays_messageTurn admits planned).and
      (meets_messageTurn platform False.elim at')).mono
    intro next m'' ⟨reached'', found⟩
    cases next with
    | again _ => exact ⟨found, reached''⟩
    | done _ => exact ⟨found.1, reached''⟩
  · exact ⟨at_, reached⟩

/-- The jobs leave one after the other. The deletion of cookies is tried again at the end, which is as
if it were after each of them. -/
theorem reached_cancelJobs (admits : Admits ok fine) (jobs : Nat) (free : m.starting = none)
    (reached : m.schedule.flush.Reached fine) :
    (m.cancelJobs jobs).schedule.flush.Reached fine := by
  induction jobs generalizing m with
  | zero => exact reached
  | succ jobs ih =>
    rw [ResourceHandleManager.cancelJobs]
    cases found : m.cancelledJob with
    | none => exact reached
    | some job =>
      have runs : job ∈ m.schedule.running := List.mem_of_find?_eq_some found
      have removed := m.schedule_removeCancelledJob job
      rw [Schedule.flush_of_running (List.ne_nil_of_mem runs)] at reached
      apply ih
      · exact (congrArg Schedule.starting removed).trans free
      · rw [removed]
        exact reached.step (admits.plain _ _ rfl) (.leave free runs)

theorem plays_downloadTimerCallback (admits : Admits ok fine) (planned : Planned fine m) :
    Meets ok (OnSchedule fine) (downloadTimerCallback platform) m
      fun _ m' => OnSchedule fine m' := by
  apply meets_bind
  apply (plays_startScheduledJobs admits planned).mono
  intro _ m₁ planned₁
  apply meets_bind
  apply (plays_curlMultiPerform admits planned₁).mono
  intro runningHandles m₂ planned₂
  have read₂ : Read False runningHandles m₂ := ⟨planned₂.settled, False.elim⟩
  apply meets_bind
  apply ((plays_messages admits read₂ planned₂.reached).and
    (meets_messages platform False.elim read₂)).mono
  intro _ m₃ ⟨⟨read₃, reached₃⟩, _, empty₃⟩
  have planned₄ : Planned fine m₃.cancelScheduledJobs := by
    obtain ⟨cancelled, -⟩ := read₃.cancelJobs empty₃ m₃.runningJobList.length
    have flushed : m₃.schedule.flush.Reached fine :=
      reached₃.step (admits.plain _ _ rfl) (.flush m₃.schedule)
    exact ⟨cancelled.settled.cookies _, reached_cancelJobs admits _ read₃.settled.free flushed⟩
  apply meets_bind
  apply meets_update
  apply meets_bind
  apply (plays_startScheduledJobs admits planned₄).mono
  intro started m₅ planned₅
  apply meets_bind
  apply meets_read
  exact meets_ite (fun _ => meets_update planned₅.reached) fun _ => meets_pure planned₅.reached

theorem plays_dispatch (admits : Admits ok fine) (rest : AtRest False m)
    (reached : OnSchedule fine m) {event : Event} (okay : ok m event) :
    Meets ok (OnSchedule fine) (dispatch platform event) m fun _ m' => OnSchedule fine m' := by
  have planned : Planned fine m := ⟨rest.settled, reached⟩
  have client : OnSchedule fine (actOutside platform m event) := by
    unfold actOutside
    cases accepted : clientEvent m event with
    | none => exact reached
    | some act => exact reached.played (clientAct_played admits planned.calm accepted okay)
  cases event with
  | timer =>
    apply meets_bind
    apply meets_read
    apply meets_ite
    · intro _
      have settled := rest.settled
      apply meets_bind
      apply meets_update
      exact plays_downloadTimerCallback admits
        ⟨⟨settled.inOrder, settled.free, settled.added⟩, reached⟩
    · exact fun _ => meets_pure reached
  | setProxyInfo host port username password auth =>
    apply meets_update
    rw [OnSchedule, schedule_setProxyInfo]
    exact reached.step (admits.replace m host port username password auth okay)
      (.replace rest.settled.free)
  | setMaxTCPConnections number =>
    apply meets_update
    unfold ResourceHandleManager.setMaxTCPConnections
    split <;> exact reached
  | _ => exact meets_update client

/-- What holds between two turns of the event loop. -/
structure Between (fine : Schedule → Act → Prop) (m : ResourceHandleManager) : Prop where
  rest : AtRest False m
  reached : OnSchedule fine m

/-- In every state the schedule is one that fine acts lead to. -/
theorem onSchedule_of_reachable (admits : Admits ok fine)
    (reachable : Reachable (dispatch platform) ok {} m) : OnSchedule fine m := by
  have start : Between fine {} := ⟨atRest_init False, .init⟩
  apply reachable.invariant start fun _ between => between.reached
  intro m event between okay
  apply ((plays_dispatch admits between.rest between.reached okay).and
    (meets_dispatch platform False.elim between.rest event)).mono
  exact fun _ m' found => ⟨found.2, found.1⟩

end

end WkcBrowser.Network
