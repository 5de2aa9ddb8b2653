import WkcBrowser.Network.Clients
import WkcBrowser.Network.Schedule

/-! The manager as a schedule. Whatever is done to the manager is an act of the schedule or does not
concern it. -/

namespace WkcBrowser.Network

open Wtf Lib.Interaction Program ResourceHandleManager
open Lib.Loop (Turn)

namespace ResourceHandleManager

def schedule (m : ResourceHandleManager) : Schedule :=
  { created := m.created
    scheduled := m.scheduledJobList
    running := m.runningJobList
    starting := m.starting
    sequential := m.jsSequential
    script := fun job => (m.jobs job).d.isJSRequestatFirst
    handle := fun job => (m.jobs job).d.handle
    cookies := m.cookies
    starts := m.starts }

section
variable (m : ResourceHandleManager) (job : Nat)

theorem schedule_change (f : ResourceHandle → ResourceHandle) :
    (m.change job f).schedule = { m.schedule with
      script := Function.update m.schedule.script job (f (m.jobs job)).d.isJSRequestatFirst
      handle := Function.update m.schedule.handle job (f (m.jobs job)).d.handle } := by
  have field : ∀ {β : Type} (field : ResourceHandle → β),
      (fun other => field ((m.change job f).jobs other)) =
        Function.update (fun other => field (m.jobs other)) job (field (f (m.jobs job))) := by
    intro β field
    funext other
    rw [change_jobs, Function.update_apply]
    split <;> rfl
  rw [schedule, field (·.d.isJSRequestatFirst), field (·.d.handle)]
  rfl

theorem schedule_keep {f : ResourceHandle → ResourceHandle}
    (same : (f (m.jobs job)).d.isJSRequestatFirst = (m.jobs job).d.isJSRequestatFirst ∧
      (f (m.jobs job)).d.handle = (m.jobs job).d.handle) :
    (m.change job f).schedule = m.schedule := by
  rw [schedule_change, same.1, same.2]
  simp only [schedule, Function.update_eq_self]

theorem schedule_write {f : ResourceHandleInternal → ResourceHandleInternal}
    (same : ∀ d, (f d).handle = d.handle ∧ (f d).isJSRequestatFirst = d.isJSRequestatFirst) :
    (m.write job f).schedule = m.schedule :=
  m.schedule_keep job ⟨(same _).2, (same _).1⟩

theorem schedule_setHandle {f : ResourceHandleInternal → ResourceHandleInternal} {b : Bool}
    (sets : ∀ d, (f d).handle = b ∧ (f d).isJSRequestatFirst = d.isJSRequestatFirst) :
    (m.write job f).schedule = m.schedule.setHandle job b := by
  rw [write, schedule_change, (sets _).1, (sets _).2]
  simp only [schedule, Schedule.setHandle, Function.update_eq_self]

theorem schedule_deref : (m.deref job).schedule = m.schedule :=
  m.schedule_keep job ⟨rfl, rfl⟩

theorem schedule_curlMultiAddHandle : (m.curlMultiAddHandle job).schedule = m.schedule :=
  schedule_keep { m with multi := m.multi ++ [job] } job ⟨rfl, rfl⟩

theorem schedule_add (platform : Platform) (request : ResourceRequest) :
    ∃ script, (m.add platform request).schedule = m.schedule.submit script := by
  have ledger := m.ledger_add platform request
  obtain ⟨script, jobs, -⟩ := add_jobs platform m request
  have rest : (m.add platform request).jsSequential = m.jsSequential ∧
      (m.add platform request).cookies = m.cookies ∧
      (m.add platform request).starts = m.starts := by
    unfold add appendScheduledJob
    dsimp only
    split_ifs <;> exact ⟨rfl, rfl, rfl⟩
  have field : ∀ {β : Type} (field : ResourceHandle → β) (handle : ResourceHandle),
      (fun other => field (Function.update m.jobs m.created handle other)) =
        Function.update (fun other => field (m.jobs other)) m.created (field handle) := by
    intro β field handle
    funext other
    simp only [Function.update_apply]
    split <;> rfl
  have created : (m.add platform request).created = m.created + 1 := congrArg Ledger.created ledger
  have scheduled : (m.add platform request).scheduledJobList = m.scheduledJobList ++ [m.created] :=
    congrArg Ledger.scheduled ledger
  have running : (m.add platform request).runningJobList = m.runningJobList :=
    congrArg Ledger.running ledger
  have starting : (m.add platform request).starting = m.starting := congrArg Ledger.starting ledger
  refine ⟨script, ?_⟩
  rw [schedule, created, scheduled, running, starting, jobs, rest.1, rest.2.1, rest.2.2,
    field (·.d.isJSRequestatFirst), field (·.d.handle)]
  rfl

theorem schedule_cancel : job ∈ m.scheduledJobList ∧ (m.cancel job).schedule = m.schedule.drop job ∨
    job ∉ m.scheduledJobList ∧ (m.cancel job).schedule = m.schedule := by
  unfold cancel removeScheduledJob
  by_cases waits : job ∈ m.scheduledJobList
  · rw [if_pos waits]
    exact Or.inl ⟨waits, schedule_deref _ job⟩
  · have marked := m.schedule_write job (f := fun d => { d with cancelled := true })
      fun _ => ⟨rfl, rfl⟩
    rw [if_neg waits]
    dsimp only
    split_ifs <;> exact Or.inr ⟨waits, marked⟩

theorem schedule_doAuthChallenge : (m.doAuthChallenge job).schedule = m.schedule := by
  unfold doAuthChallenge
  split
  · rfl
  · exact m.schedule_write job fun _ => ⟨rfl, rfl⟩

theorem schedule_receivedCredential (challenge : AuthenticationChallenge)
    (credential : Credential) :
    (m.receivedCredential job challenge credential).schedule = m.schedule := by
  unfold receivedCredential
  split
  · rfl
  · rw [schedule_doAuthChallenge]
    exact m.schedule_write job fun _ => ⟨rfl, rfl⟩

theorem schedule_continueWithoutCredential (challenge : AuthenticationChallenge) :
    (m.receivedRequestToContinueWithoutCredential job challenge).schedule = m.schedule := by
  unfold receivedRequestToContinueWithoutCredential
  split
  · rfl
  · exact m.schedule_write job fun _ => ⟨rfl, rfl⟩

/-- The job that is taken next, and which ones it passes by. -/
theorem shiftScheduledJob_next {m' : ResourceHandleManager}
    (shifted : m.shiftScheduledJob = some (job, m')) :
    (m.jsSequential = true → (m.jobs job).d.isJSRequestatFirst = false) ∧
      ∃ front back, m.scheduledJobList = front ++ job :: back ∧
        ∀ other ∈ front, m.jsSequential = true ∧ (m.jobs other).d.isJSRequestatFirst = true := by
  unfold shiftScheduledJob at shifted
  cases sequential : m.jsSequential with
  | false =>
    rw [sequential] at shifted
    cases waiting : m.scheduledJobList with
    | nil => simp [waiting] at shifted
    | cons first rest =>
      simp only [waiting, Bool.not_false, if_true, Option.some.injEq, Prod.mk.injEq] at shifted
      exact ⟨by simp, [], rest, by rw [shifted.1]; rfl, by simp⟩
  | true =>
    rw [sequential] at shifted
    cases found : m.scheduledJobList.find? fun job => !(m.jobs job).d.isJSRequestatFirst with
    | none => simp [found] at shifted
    | some first =>
      simp only [found, Bool.not_true, Bool.false_eq_true, if_false, Option.some.injEq,
        Prod.mk.injEq] at shifted
      obtain ⟨plain, front, back, same, passed⟩ := List.find?_eq_some_iff_append.mp found
      rw [shifted.1] at plain same
      exact ⟨fun _ => by simpa using plain, front, back, same, by simpa using passed⟩

theorem schedule_place : { (m.curlMultiAddHandle job).appendRunningJob job with
    starting := none }.schedule = m.schedule.place job := by
  have d : ((m.curlMultiAddHandle job).jobs job).d = (m.jobs job).d := by
    simp [curlMultiAddHandle]
  have placed : { (m.curlMultiAddHandle job).appendRunningJob job with
      starting := none }.schedule = (m.curlMultiAddHandle job).schedule.place job := by
    unfold appendRunningJob
    dsimp only
    cases script : ((m.curlMultiAddHandle job).jobs job).d.isJSRequestatFirst <;>
      simp [schedule, Schedule.place, script]
  rw [placed, schedule_curlMultiAddHandle]

theorem schedule_refuse : { ((m.leak job).write job fun d => { d with handle := false }).deref job with
    starting := none }.schedule = m.schedule.refuse job := by
  have freed := schedule_deref ((m.leak job).write job fun d => { d with handle := false }) job
  have set := (m.leak job).schedule_setHandle job (f := fun d => { d with handle := false })
    (b := false) fun _ => ⟨rfl, rfl⟩
  rw [set] at freed
  exact congrArg (fun s : Schedule => { s with starting := none }) freed

theorem schedule_flushCookies : m.flushCookies.schedule = m.schedule.flush :=
  rfl

theorem schedule_free (before : ResourceHandleManager) :
    (((before.curlMultiRemoveHandle job).write job
      fun d => { d with handle := false }).deref job).schedule =
        before.schedule.setHandle job false := by
  have set := (before.curlMultiRemoveHandle job).schedule_setHandle job
    (f := fun d => { d with handle := false }) (b := false) fun _ => ⟨rfl, rfl⟩
  rw [schedule_deref, set]
  rfl

theorem schedule_removeCancelledJob :
    (m.removeCancelledJob job).schedule = m.schedule.remove job := by
  unfold removeCancelledJob
  dsimp only
  rw [schedule_free]
  cases script : (m.jobs job).d.isJSRequestatFirst <;>
    simp [schedule, Schedule.setHandle, Schedule.remove, script]

theorem schedule_leaveCurl (runs : job ∈ m.runningJobList) :
    ((((m.removeRunningJob job).curlMultiRemoveHandle job).write job
      fun d => { d with handle := false }).flushCookies.deref job).schedule =
        (m.schedule.remove job).flush := by
  have removed := schedule_free job (m.removeRunningJob job)
  rw [schedule_deref] at removed
  rw [schedule_deref, schedule_flushCookies, removed]
  congr 1
  unfold removeRunningJob
  rw [if_pos runs]
  dsimp only
  cases script : (m.jobs job).d.isJSRequestatFirst <;>
    simp [schedule, Schedule.setHandle, Schedule.remove, script]

/-- What is left of the jobs that are taken back. -/
structure Freed (jobs : List Nat) (m' : ResourceHandleManager) : Prop where
  script : ∀ other, (m'.jobs other).d.isJSRequestatFirst = (m.jobs other).d.isJSRequestatFirst
  handle : ∀ other, (m'.jobs other).d.handle =
    ((m.jobs other).d.handle && decide (other ∉ jobs))
  rest : m'.schedule = { m.schedule with
    script := m'.schedule.script, handle := m'.schedule.handle }

theorem freed_foldl (jobs : List Nat) : m.Freed jobs (jobs.foldl
    (fun m job => (if (m.jobs job).d.handle then
      (m.curlMultiRemoveHandle job).write job fun d => { d with handle := false }
      else m).deref job) m) := by
  induction jobs generalizing m with
  | nil => exact ⟨fun _ => rfl, by simp, rfl⟩
  | cons first rest ih =>
    have one : ((if (m.jobs first).d.handle then
        (m.curlMultiRemoveHandle first).write first fun d => { d with handle := false }
        else m).deref first).schedule = m.schedule.setHandle first false := by
      split
      · exact m.schedule_free first
      · rename_i unset
        have same : m.schedule.handle first = false := by simpa [schedule] using unset
        rw [schedule_deref, Schedule.setHandle, ← same, Function.update_eq_self]
    have others := ih ((if (m.jobs first).d.handle then
        (m.curlMultiRemoveHandle first).write first fun d => { d with handle := false }
        else m).deref first)
    have handle : ∀ other, (((if (m.jobs first).d.handle then
        (m.curlMultiRemoveHandle first).write first fun d => { d with handle := false }
        else m).deref first).jobs other).d.handle =
          if other = first then false else (m.jobs other).d.handle := by
      intro other
      have same := congrFun (congrArg Schedule.handle one) other
      rw [Schedule.setHandle] at same
      dsimp only at same
      rwa [Function.update_apply] at same
    refine ⟨fun other => ?_, fun other => ?_, ?_⟩
    · exact (others.script other).trans (congrFun (congrArg Schedule.script one) other)
    · rw [List.foldl_cons, others.handle, handle]
      by_cases same : other = first <;> simp [same]
    · rw [List.foldl_cons, others.rest, one]
      rfl

theorem freed_deref (jobs : List Nat) : (jobs.foldl deref m).schedule = m.schedule := by
  induction jobs generalizing m with
  | nil => rfl
  | cons first rest ih =>
    rw [List.foldl_cons, ih, schedule_deref]

theorem schedule_setProxyInfo (host : Text) (port : Nat) (username password : Text) (auth : Nat) :
    (m.setProxyInfo host port username password auth).schedule = m.schedule.replace := by
  unfold setProxyInfo
  dsimp only
  generalize named : { m with
    proxyHost := some host, proxyPort := if port ≠ 0 then port else 80, proxyAuth := auth
    proxyUser := proxyUserName auth username, proxyPass := password } = m₀
  have same : m₀.schedule = m.schedule := by rw [← named]; rfl
  have first : m₀.removeAllScheduledJobs.schedule = { m.schedule with scheduled := [] } := by
    rw [removeAllScheduledJobs, freed_deref, ← same]
    rfl
  have second := freed_foldl { m₀.removeAllScheduledJobs with runningJobList := [] }
    m₀.removeAllScheduledJobs.runningJobList
  have running : m₀.removeAllScheduledJobs.runningJobList = m.runningJobList :=
    congrArg Schedule.running first
  have script : m₀.removeAllScheduledJobs.removeAllRunningJobs.schedule.script =
      m.schedule.script := by
    funext job
    exact (second.script job).trans (congrFun (congrArg Schedule.script first) job)
  have handle : m₀.removeAllScheduledJobs.removeAllRunningJobs.schedule.handle =
      m.schedule.replace.handle := by
    funext job
    have held := congrFun (congrArg Schedule.handle first) job
    have freed := second.handle job
    exact freed.trans (by rw [running]; exact congrArg (· && decide (job ∉ m.runningJobList)) held)
  have rest : m₀.removeAllScheduledJobs.removeAllRunningJobs.schedule =
      { m.schedule with
        scheduled := [], running := [], handle := m.schedule.replace.handle } := by
    have kept : m₀.removeAllScheduledJobs.removeAllRunningJobs.schedule =
        { m₀.removeAllScheduledJobs.schedule with
          running := []
          script := m₀.removeAllScheduledJobs.removeAllRunningJobs.schedule.script
          handle := m₀.removeAllScheduledJobs.removeAllRunningJobs.schedule.handle } := second.rest
    rw [kept, script, handle, first]
  split <;> exact congrArg (fun s : Schedule => { s with sequential := false }) rest

end

end ResourceHandleManager

end WkcBrowser.Network
