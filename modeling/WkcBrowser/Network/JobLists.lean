import WkcBrowser.Network.Ledger
import WkcBrowser.Network.DownloadTimer

/-! The manager as a ledger: what each of its operations does to the places of the jobs and to the
references it holds. -/

namespace WkcBrowser.Network

open Wtf

namespace ResourceHandleManager

def ledger (m : ResourceHandleManager) : Ledger :=
  { created := m.created
    scheduled := m.scheduledJobList
    running := m.runningJobList
    starting := m.starting
    multi := m.multi
    finished := m.messages.map (·.1)
    refs := fun job => (m.jobs job).refs
    derefs := fun job => (m.jobs job).derefs
    handle := fun job => (m.jobs job).d.handle }

section
variable (m : ResourceHandleManager) (job other : Nat)

@[simp] theorem change_jobs (f : ResourceHandle → ResourceHandle) :
    (m.change job f).jobs other = if other = job then f (m.jobs job) else m.jobs other :=
  Function.update_apply ..

theorem ledger_change (f : ResourceHandle → ResourceHandle) :
    (m.change job f).ledger = { m.ledger with
      refs := Function.update m.ledger.refs job (f (m.jobs job)).refs
      derefs := Function.update m.ledger.derefs job (f (m.jobs job)).derefs
      handle := Function.update m.ledger.handle job (f (m.jobs job)).d.handle } := by
  have field : ∀ {β : Type} (field : ResourceHandle → β),
      (fun other => field ((m.change job f).jobs other)) =
        Function.update (fun other => field (m.jobs other)) job (field (f (m.jobs job))) := by
    intro β field
    funext other
    rw [change_jobs, Function.update_apply]
    split <;> rfl
  rw [ledger, field (·.refs), field (·.derefs), field (·.d.handle)]
  rfl

/-- What is written to the internal part of a handle does not count, `m_handle` apart. -/
theorem ledger_write {f : ResourceHandleInternal → ResourceHandleInternal}
    (keeps : ∀ d, (f d).handle = d.handle) : (m.write job f).ledger = m.ledger := by
  rw [write, ledger_change]
  simp only [keeps, ledger, Function.update_eq_self]

theorem ledger_setHandle {f : ResourceHandleInternal → ResourceHandleInternal} {b : Bool}
    (sets : ∀ d, (f d).handle = b) : (m.write job f).ledger = m.ledger.setHandle job b := by
  rw [write, ledger_change]
  simp only [sets, ledger, Ledger.setHandle, Function.update_eq_self]

theorem ledger_transfer (f : ResourceHandle → Transfer) :
    (m.change job fun handle => { handle with transfer := f handle }).ledger = m.ledger := by
  rw [ledger_change]
  simp only [ledger, Function.update_eq_self]

theorem ledger_deref : (m.deref job).ledger = m.ledger.release job := by
  rw [deref, ledger_change]
  simp only [ledger, Ledger.release, Function.update_eq_self]

theorem ledger_enter (entry : Entry) : (m.enter entry).ledger = m.ledger :=
  rfl

theorem ledger_appendScheduledJob (platform : Platform) :
    (m.appendScheduledJob platform job).ledger =
      { m.ledger with scheduled := m.scheduledJobList ++ [job] } := by
  have write := m.ledger_write job (f := fun d => { d with isJSRequestatFirst := true }) fun _ => rfl
  unfold appendScheduledJob
  dsimp only
  split
  · exact congrArg (fun l : Ledger => { l with scheduled := m.scheduledJobList ++ [job] }) write
  · rfl

/-- `add` submits a job. -/
theorem ledger_add (platform : Platform) (request : ResourceRequest) :
    (m.add platform request).ledger = m.ledger.submit := by
  have appended : ∀ m : ResourceHandleManager,
      (if !m.downloadTimer then m.startOneShot else m).ledger = m.ledger := by
    intro m
    split <;> rfl
  rw [add, appended, ledger_appendScheduledJob]
  have created : ∀ {β : Type} (field : ResourceHandle → β) (handle : ResourceHandle),
      (fun other => field (Function.update m.jobs m.created handle other)) =
        Function.update (fun other => field (m.jobs other)) m.created (field handle) := by
    intro β field handle
    funext other
    simp only [Function.update_apply]
    split <;> rfl
  rw [ref, ledger_change]
  simp only [ledger, created (·.refs), created (·.derefs), created (·.d.handle),
    Function.update_self, Function.update_idem, Ledger.submit]
  rfl

theorem removeScheduledJob_ledger {m' : ResourceHandleManager}
    (removed : m.removeScheduledJob job = some m') :
    job ∈ m.scheduledJobList ∧ m'.ledger = m.ledger.drop job := by
  unfold removeScheduledJob at removed
  split at removed
  · obtain rfl := Option.some.inj removed
    exact ⟨‹_›, ledger_deref _ job⟩
  · cases removed

/-- `cancel` drops a job that waits and moves no other. -/
theorem cancel_ledger : (m.cancel job).ledger = m.ledger.drop job ∧ job ∈ m.scheduledJobList ∨
    (m.cancel job).ledger = m.ledger := by
  unfold cancel
  cases removed : m.removeScheduledJob job with
  | some m' =>
    obtain ⟨waits, dropped⟩ := m.removeScheduledJob_ledger job removed
    exact Or.inl ⟨dropped, waits⟩
  | none =>
    have write := m.ledger_write job (f := fun d => { d with cancelled := true }) fun _ => rfl
    right
    dsimp only
    split_ifs <;> exact write

theorem shiftScheduledJob_eq {m' : ResourceHandleManager}
    (shifted : m.shiftScheduledJob = some (job, m')) : job ∈ m.scheduledJobList ∧
      m' = { m with scheduledJobList := m.scheduledJobList.erase job } := by
  unfold shiftScheduledJob at shifted
  split at shifted
  · split at shifted
    · cases shifted
    · rename_i first rest same
      obtain ⟨rfl, rfl⟩ := Prod.mk.inj (Option.some.inj shifted)
      rw [same, List.erase_cons_head]
      exact ⟨List.mem_cons_self, rfl⟩
  · split at shifted
    · cases shifted
    · rename_i first found
      obtain ⟨rfl, rfl⟩ := Prod.mk.inj (Option.some.inj shifted)
      exact ⟨List.mem_of_find?_eq_some found, rfl⟩

theorem ledger_curlMultiRemoveHandle :
    (m.curlMultiRemoveHandle job).ledger = m.ledger.detach job := by
  have messages : (m.messages.filter fun message => message.1 ≠ job).map (·.1) =
      (m.messages.map (·.1)).filter (· ≠ job) := by
    rw [List.filter_map]
    rfl
  rw [ledger, curlMultiRemoveHandle, Ledger.detach, ledger]
  simp only [messages]

theorem ledger_curlMultiAddHandle :
    (m.curlMultiAddHandle job).ledger = m.ledger.attach job :=
  ledger_transfer _ job _

/-- A job that curl has taken is placed in the list of the running ones. -/
theorem ledger_appendRunningJob : { (m.curlMultiAddHandle job).appendRunningJob job with
      starting := none }.ledger = m.ledger.place job := by
  have attached := m.ledger_curlMultiAddHandle job
  unfold appendRunningJob
  dsimp only
  split <;>
  exact congrArg (fun l : Ledger => { l with
    running := m.runningJobList ++ [job], starting := none }) attached

theorem ledger_removeRunningJob : (m.removeRunningJob job).ledger =
    { m.ledger with running := m.runningJobList.erase job } := by
  unfold removeRunningJob
  by_cases listed : job ∈ m.runningJobList
  · rw [if_pos listed]
    dsimp only
    split <;> rfl
  · rw [if_neg listed, List.erase_of_not_mem listed]
    rfl

theorem removeRunningJob_downloadTimer :
    (m.removeRunningJob job).downloadTimer = m.downloadTimer := by
  unfold removeRunningJob
  dsimp only
  split_ifs <;> rfl

theorem removeCancelledJob_downloadTimer :
    (m.removeCancelledJob job).downloadTimer = m.downloadTimer := by
  unfold removeCancelledJob
  dsimp only
  split_ifs <;> rfl

theorem ledger_removeCancelledJob :
    (m.removeCancelledJob job).ledger = m.ledger.leave job := by
  unfold removeCancelledJob
  dsimp only
  rw [ledger_deref, ledger_setHandle (b := false) _ _ fun _ => rfl, ledger_curlMultiRemoveHandle]
  split <;> rfl

/-- The end of `removeFromCurl` takes the job out of the manager. -/
theorem ledger_leaveCurl : ((((m.removeRunningJob job).curlMultiRemoveHandle job).write job
    fun d => { d with handle := false }).deref job).ledger = m.ledger.leave job := by
  have set := ledger_setHandle ((m.removeRunningJob job).curlMultiRemoveHandle job) job
    (f := fun d => { d with handle := false }) (b := false) fun _ => rfl
  rw [ledger_deref, set, ledger_curlMultiRemoveHandle, ledger_removeRunningJob]
  rfl

theorem ledger_doAuthChallenge : (m.doAuthChallenge job).ledger = m.ledger := by
  unfold doAuthChallenge
  split
  · rfl
  · exact m.ledger_write job fun _ => rfl

theorem ledger_receivedCredential (challenge : AuthenticationChallenge) (credential : Credential) :
    (m.receivedCredential job challenge credential).ledger = m.ledger := by
  unfold receivedCredential
  split
  · rfl
  · rw [ledger_doAuthChallenge]
    exact m.ledger_write job fun _ => rfl

theorem ledger_continueWithoutCredential (challenge : AuthenticationChallenge) :
    (m.receivedRequestToContinueWithoutCredential job challenge).ledger = m.ledger := by
  unfold receivedRequestToContinueWithoutCredential
  split
  · rfl
  · exact m.ledger_write job fun _ => rfl

theorem ledger_receivedProxyCredential (credential : Credential) :
    (m.receivedProxyCredential job credential).ledger = m.ledger :=
  m.ledger_doAuthChallenge job

/-- The jobs of the list are released, and with `detaching` their transfers are taken back. -/
structure ReleasedAll (jobs : List Nat) (m' : ResourceHandleManager) : Prop where
  created : m'.created = m.created
  scheduled : m'.scheduledJobList = m.scheduledJobList
  running : m'.runningJobList = m.runningJobList
  starting : m'.starting = m.starting
  refs : ∀ other, (m'.jobs other).refs = (m.jobs other).refs
  derefs : ∀ other, (m'.jobs other).derefs = (m.jobs other).derefs + jobs.count other
  history : m'.history = m.history
  told : ∀ other, (m'.jobs other).transfer = (m.jobs other).transfer ∧
    (m'.jobs other).d.client = (m.jobs other).d.client ∧
    (m'.jobs other).d.response = (m.jobs other).d.response

theorem releasedAll_foldl (step : ResourceHandleManager → Nat → ResourceHandleManager)
    (releases : ∀ m job, ReleasedAll m [job] (step m job)) (jobs : List Nat) :
    ReleasedAll m jobs (jobs.foldl step m) := by
  induction jobs generalizing m with
  | nil => exact ⟨rfl, rfl, rfl, rfl, fun _ => rfl, fun _ => rfl, rfl, fun _ => ⟨rfl, rfl, rfl⟩⟩
  | cons first rest ih =>
    have one := releases m first
    have others := ih (step m first)
    refine ⟨others.created.trans one.created, others.scheduled.trans one.scheduled,
      others.running.trans one.running, others.starting.trans one.starting,
      fun other => (others.refs other).trans (one.refs other), ?_,
      others.history.trans one.history, fun other => ?_⟩
    · intro other
      rw [List.foldl_cons, others.derefs, one.derefs, List.count_cons, List.count_cons,
        List.count_nil]
      split <;> omega
    · obtain ⟨transfer, client, response⟩ := one.told other
      obtain ⟨transfer', client', response'⟩ := others.told other
      exact ⟨transfer'.trans transfer, client'.trans client, response'.trans response⟩

theorem releasedAll_deref : ReleasedAll m [job] (m.deref job) := by
  refine ⟨rfl, rfl, rfl, rfl, ?_, ?_, rfl, ?_⟩
  · intro other
    rw [deref, change_jobs]
    split
    · rw [‹other = job›]
    · rfl
  · intro other
    rw [deref, change_jobs, List.count_singleton]
    by_cases same : other = job
    · rw [if_pos same, same]
      simp
    · rw [if_neg same]
      simp [Ne.symm same]
  · intro other
    rw [deref, change_jobs]
    split
    · rw [‹other = job›]
      exact ⟨rfl, rfl, rfl⟩
    · exact ⟨rfl, rfl, rfl⟩

theorem releasedAll_running : ReleasedAll m [job]
    ((if (m.jobs job).d.handle then
        (m.curlMultiRemoveHandle job).write job fun d => { d with handle := false }
      else m).deref job) := by
  split
  · have freed := releasedAll_deref
      ((m.curlMultiRemoveHandle job).write job fun d => { d with handle := false }) job
    have same : ∀ other, (((m.curlMultiRemoveHandle job).write job
        fun d => { d with handle := false }).jobs other).refs = (m.jobs other).refs ∧
        (((m.curlMultiRemoveHandle job).write job
          fun d => { d with handle := false }).jobs other).derefs = (m.jobs other).derefs := by
      intro other
      rw [write, change_jobs]
      split
      · rw [‹other = job›]
        exact ⟨rfl, rfl⟩
      · exact ⟨rfl, rfl⟩
    refine ⟨freed.created, freed.scheduled, freed.running, freed.starting,
      fun other => (freed.refs other).trans (same other).1,
      fun other => (freed.derefs other).trans (by rw [(same other).2]), freed.history, ?_⟩
    intro other
    obtain ⟨transfer, client, response⟩ := freed.told other
    rw [transfer, client, response, write, change_jobs]
    split
    · rw [‹other = job›]
      exact ⟨rfl, rfl, rfl⟩
    · exact ⟨rfl, rfl, rfl⟩
  · exact releasedAll_deref m job

theorem releasedAll_scheduledJobs : ReleasedAll { m with scheduledJobList := [] }
    m.scheduledJobList.reverse m.removeAllScheduledJobs :=
  releasedAll_foldl _ deref releasedAll_deref _

theorem releasedAll_runningJobs : ReleasedAll { m with runningJobList := [] } m.runningJobList
    m.removeAllRunningJobs :=
  releasedAll_foldl _ _ releasedAll_running _

end

/-- `setProxyInfo` empties both lists and releases their jobs. -/
theorem sound_setProxyInfo {m : ResourceHandleManager} (sound : m.ledger.Sound)
    (idle : m.starting = none) (host : Text) (port : Nat) (username password : Text) (auth : Nat) :
    (m.setProxyInfo host port username password auth).ledger.Sound ∧
      (m.setProxyInfo host port username password auth).starting = none ∧
      (m.setProxyInfo host port username password auth).scheduledJobList = [] ∧
      (m.setProxyInfo host port username password auth).runningJobList = [] := by
  unfold setProxyInfo
  dsimp only
  generalize named : { m with
    proxyHost := some host, proxyPort := if port ≠ 0 then port else 80, proxyAuth := auth
    proxyUser := proxyUserName auth username, proxyPass := password } = m₀
  have same : m₀.ledger = m.ledger := by rw [← named]; rfl
  have first := m₀.releasedAll_scheduledJobs
  have second := m₀.removeAllScheduledJobs.releasedAll_runningJobs
  have jobs : ∀ job, (m₀.removeAllScheduledJobs.removeAllRunningJobs.jobs job).derefs =
      m.ledger.derefs job + m.ledger.scheduled.count job + m.ledger.running.count job := by
    intro job
    rw [second.derefs, first.running, first.derefs, List.count_reverse, ← same]
    rfl
  have refs : (fun job => (m₀.removeAllScheduledJobs.removeAllRunningJobs.jobs job).refs) =
      m.ledger.refs := by
    funext job
    rw [second.refs, first.refs, ← same]
    rfl
  have created : m₀.removeAllScheduledJobs.removeAllRunningJobs.created = m.ledger.created := by
    rw [second.created, first.created, ← same]
    rfl
  have starting : m₀.removeAllScheduledJobs.removeAllRunningJobs.starting = none := by
    rw [second.starting, first.starting, ← idle, ← named]
  have scheduled := second.scheduled.trans first.scheduled
  split <;>
  exact ⟨sound.clear idle created refs scheduled second.running starting rfl rfl jobs,
    starting, scheduled, second.running⟩

/-- `setProxyInfo` tells the clients nothing. -/
theorem setProxyInfo_told (m : ResourceHandleManager) (host : Text) (port : Nat)
    (username password : Text) (auth : Nat) :
    (m.setProxyInfo host port username password auth).history = m.history ∧
      (m.setProxyInfo host port username password auth).created = m.created ∧
      (m.setProxyInfo host port username password auth).multi = [] ∧
      ∀ job, ((m.setProxyInfo host port username password auth).jobs job).transfer =
          (m.jobs job).transfer ∧
        ((m.setProxyInfo host port username password auth).jobs job).d.client =
          (m.jobs job).d.client ∧
        ((m.setProxyInfo host port username password auth).jobs job).d.response =
          (m.jobs job).d.response := by
  unfold setProxyInfo
  dsimp only
  generalize named : { m with
    proxyHost := some host, proxyPort := if port ≠ 0 then port else 80, proxyAuth := auth
    proxyUser := proxyUserName auth username, proxyPass := password } = m₀
  have first := m₀.releasedAll_scheduledJobs
  have second := m₀.removeAllScheduledJobs.releasedAll_runningJobs
  have history : m₀.removeAllScheduledJobs.removeAllRunningJobs.history = m.history := by
    rw [second.history, first.history, ← named]
  have created : m₀.removeAllScheduledJobs.removeAllRunningJobs.created = m.created := by
    rw [second.created, first.created, ← named]
  have told : ∀ job, (m₀.removeAllScheduledJobs.removeAllRunningJobs.jobs job).transfer =
      (m.jobs job).transfer ∧
      (m₀.removeAllScheduledJobs.removeAllRunningJobs.jobs job).d.client =
        (m.jobs job).d.client ∧
      (m₀.removeAllScheduledJobs.removeAllRunningJobs.jobs job).d.response =
        (m.jobs job).d.response := by
    intro job
    obtain ⟨transfer, client, response⟩ := second.told job
    obtain ⟨transfer', client', response'⟩ := first.told job
    rw [transfer, client, response, transfer', client', response', ← named]
    exact ⟨rfl, rfl, rfl⟩
  split <;> exact ⟨history, created, rfl, told⟩

/-- Credentials for a proxy are kept only while there is a proxy. -/
theorem setProxyInfo_credentials (m : ResourceHandleManager) (host : Text) (port : Nat)
    (username password : Text) (auth : Nat)
    (has : (m.setProxyInfo host port username password auth).hasProxyUserPass = true) :
    (m.setProxyInfo host port username password auth).proxy ≠ [] := by
  unfold setProxyInfo at has ⊢
  dsimp only at has ⊢
  split
  · rw [if_pos ‹_›] at has
    simp [hasProxyUserPass] at has
  · simp [text, ascii, widen]

end ResourceHandleManager

end WkcBrowser.Network
