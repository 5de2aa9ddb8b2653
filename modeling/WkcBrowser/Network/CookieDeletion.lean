import WkcBrowser.Network.ScheduleRuns

/-! When a deletion of the cookies that was put off is carried out. It is tried again when a job leaves
by itself or is cancelled, but not when all jobs are taken back for a new proxy, and it fails as long
as a transfer that nobody owns any more holds the cookies. -/

namespace WkcBrowser.Network

open Wtf Lib.Interaction Program ResourceHandleManager

/-- No deletion is pending when a transfer is lost or all jobs are taken back, and none is asked for
once a transfer is lost. -/
def Deferrable (s : Schedule) : Act → Prop
  | .request => s.cookies.leaked = 0
  | .refuse job => s.handle job = true → s.cookies.cookiesDeleting = false
  | .replace => s.cookies.cookiesDeleting = false
  | _ => True

/-- A pending deletion waits for a job that runs, and only then. -/
structure Schedule.Deferred (s : Schedule) : Prop where
  pending : s.cookies.cookiesDeleting = true → s.running ≠ [] ∧ s.cookies.leaked = 0
  cleared : s.cookies.cookiesDeleting = false → s.cookies.cleared = s.cookies.requested

section
variable {s : Schedule} {job : Nat}

theorem Schedule.idle_iff : s.idle = true ↔ s.running = [] := by
  simp [idle]

/-- Nobody holds the cookies when no job runs and none has its transfer yet. -/
theorem Schedule.not_inUse (owned : s.Owned) (leaked : s.cookies.leaked = 0)
    (idle : s.running = []) (calm : ∀ job, s.starting = some job → s.handle job = false) :
    s.inUse = false := by
  have unheld : ∀ job, s.handle job = false := by
    intro job
    rw [Bool.eq_false_iff]
    intro set
    rcases owned job set with runs | starts
    · rw [idle] at runs
      cases runs
    · exact absurd set (by simp [calm job starts])
  simp [inUse, leaked, unheld]

/-- A deletion that is asked for is carried out at once or put off until the jobs that run are gone. -/
theorem CookieShare.clear_of_free (cookies : CookieShare) {idle : Bool}
    (pending : cookies.cookiesDeleting = false) :
    cookies.clear idle false =
      if idle = true then { cookies with cleared := cookies.requested }
      else { cookies with cookiesDeleting := true } := by
  simp [CookieShare.clear, pending]

theorem CookieShare.clear_of_busy (cookies : CookieShare) (inUse : Bool) :
    cookies.clear false inUse = { cookies with cookiesDeleting := true } := by
  cases deleting : cookies.cookiesDeleting with
  | false => simp [CookieShare.clear, deleting]
  | true =>
    have again : { cookies with cookiesDeleting := true } = cookies := by rw [← deleting]
    simp [CookieShare.clear, deleting, again]

theorem Schedule.Deferred.request (deferred : s.Deferred) (owned : s.Owned)
    (leaked : s.cookies.leaked = 0)
    (calm : ∀ job, s.starting = some job → s.handle job = false) : s.request.Deferred := by
  by_cases idle : s.running = []
  · have settled : s.cookies.cookiesDeleting = false := by
      rw [Bool.eq_false_iff]
      exact fun deleting => (deferred.pending deleting).1 idle
    have free := not_inUse owned leaked idle calm
    have asked : CookieShare.clear _ s.idle false = _ := CookieShare.clear_of_free
      { s.cookies with requested := s.cookies.requested + 1 } settled
    have done : s.request.cookies = { s.cookies with
        requested := s.cookies.requested + 1, cleared := s.cookies.requested + 1 } := by
      rw [Schedule.request, free]
      exact asked.trans (if_pos (idle_iff.mpr idle))
    constructor
    · rw [done]
      exact fun deleting => absurd (settled.symm.trans deleting) (by simp)
    · rw [done]
      exact fun _ => rfl
  · have busy : s.idle = false := by
      rw [Bool.eq_false_iff]
      exact fun same => idle (idle_iff.mp same)
    have waits : s.request.cookies = { s.cookies with
        requested := s.cookies.requested + 1, cookiesDeleting := true } := by
      rw [Schedule.request, busy, CookieShare.clear_of_busy]
    constructor
    · rw [waits]
      exact fun _ => ⟨idle, leaked⟩
    · rw [waits]
      exact fun settled => nomatch settled

/-- The last job that leaves lets the pending deletion be carried out. -/
theorem Schedule.Deferred.leave (deferred : s.Deferred) (owned : (s.remove job).Owned)
    (free : s.starting = none) : (s.remove job).flush.Deferred := by
  by_cases busy : (s.remove job).running = []
  · cases deleting : s.cookies.cookiesDeleting with
    | false =>
      have same : (s.remove job).flush.cookies = s.cookies := by
        simp [flush, remove, CookieShare.flush, deleting]
      constructor
      · rw [same, deleting]
        rintro ⟨⟩
      · rw [same]
        exact deferred.cleared
    | true =>
      have unused : (s.remove job).inUse = false := by
        apply not_inUse owned (deferred.pending deleting).2 busy
        intro job starts
        exact absurd (free.symm.trans starts) (by simp)
      have done : (s.remove job).flush.cookies = { s.cookies with
          cookiesDeleting := false, cleared := s.cookies.requested } := by
        have cookies : (s.remove job).cookies = s.cookies := rfl
        rw [flush, CookieShare.flush, cookies, if_pos deleting, unused,
          CookieShare.clear_of_free _ rfl, if_pos (idle_iff.mpr busy)]
      constructor
      · rw [done]
        rintro ⟨⟩
      · rw [done]
        exact fun _ => rfl
  · rw [flush_of_running busy]
    exact ⟨fun deleting => ⟨busy, (deferred.pending deleting).2⟩, deferred.cleared⟩

theorem Schedule.Deferred.flush (deferred : s.Deferred) : s.flush.Deferred := by
  cases deleting : s.cookies.cookiesDeleting with
  | false =>
    have same : s.flush = s := by simp [Schedule.flush, CookieShare.flush, deleting]
    rw [same]
    exact deferred
  | true =>
    rw [flush_of_running (deferred.pending deleting).1]
    exact deferred

theorem Schedule.Deferred.step {s' : Schedule} {act : Act} (deferred : s.Deferred)
    (owned : s.Owned) (allowed : Deferrable s act) (step : s.Step act s') : s'.Deferred := by
  have owned' := owned.step step
  cases step with
  | submit | drop | take | setHandle => exact ⟨deferred.pending, deferred.cleared⟩
  | request calm => exact deferred.request owned allowed calm
  | place =>
    refine ⟨fun deleting => ⟨?_, (deferred.pending deleting).2⟩, deferred.cleared⟩
    exact List.append_ne_nil_of_right_ne_nil _ (List.cons_ne_nil _ _)
  | @refuse job starts =>
    refine ⟨fun deleting => ⟨(deferred.pending deleting).1, ?_⟩, deferred.cleared⟩
    have unset : ¬s.handle job = true :=
      fun set => absurd ((allowed set).symm.trans deleting) (by simp)
    rw [Schedule.refuse]
    dsimp only
    rw [if_neg unset]
    exact (deferred.pending deleting).2
  | leave free runs =>
    exact deferred.leave owned' free
  | flush => exact deferred.flush
  | replace free =>
    exact ⟨fun deleting => absurd (allowed.symm.trans deleting) (by simp), deferred.cleared⟩

theorem Schedule.Reached.deferred (reached : s.Reached Deferrable) : s.Deferred := by
  have both : s.Owned ∧ s.Deferred := by
    induction reached with
    | init => exact ⟨(fun _ set => nomatch set), (fun never => nomatch never), fun _ => rfl⟩
    | step _ allowed step ih => exact ⟨ih.1.step step, ih.2.step ih.1 allowed step⟩
  exact both.2

end

/-- The proxy is not changed while a deletion of the cookies is pending, curl refuses no job then, and
no deletion is asked for once curl has refused a job. -/
def Deletable (m : ResourceHandleManager) : Event → Prop
  | .setProxyInfo .. => m.cookies.cookiesDeleting = false
  | .multiAdd (.error _) => m.starting ≠ none → m.cookies.cookiesDeleting = false
  | .clearCookies => m.cookies.leaked = 0
  | _ => True

instance (m : ResourceHandleManager) (event : Event) : Decidable (Deletable m event) :=
  match event with
  | .setProxyInfo .. => inferInstanceAs (Decidable (m.cookies.cookiesDeleting = false))
  | .multiAdd (.error _) =>
    inferInstanceAs (Decidable (m.starting ≠ none → m.cookies.cookiesDeleting = false))
  | .clearCookies => inferInstanceAs (Decidable (m.cookies.leaked = 0))
  | .multiAdd .ok | .multiAdd .callMultiPerform | .add _ | .cancel _ | .releaseClient _
  | .receivedCredential .. | .receivedRequestToContinueWithoutCredential ..
  | .receivedProxyCredential .. | .leave | .timer | .setMaxTCPConnections _ | .easyInit _
  | .header .. | .body .. | .finished .. | .performed => inferInstanceAs (Decidable True)

theorem admits_deletable : Admits Deletable Deferrable where
  plain := by
    intro s act plain
    cases act <;> trivial
  request := fun _ leaked => leaked
  unset := fun s job unset set => absurd (unset.symm.trans set) (by simp)
  refused := fun m job code okay starts _ => okay (by simp [starts])
  replace := fun _ _ _ _ _ _ okay => okay

/-- A deletion that is pending waits for a job that runs, and when none runs every deletion that was
asked for is carried out. -/
def CookiesCleared (m : ResourceHandleManager) : Prop :=
  (m.cookies.cookiesDeleting = true → m.runningJobList ≠ []) ∧
    (m.runningJobList = [] → m.cookies.cleared = m.cookies.requested)

theorem cookies_cleared {platform : Platform} {m : ResourceHandleManager}
    (reachable : Reachable (dispatch platform) Deletable {} m) : CookiesCleared m := by
  have deferred : m.schedule.Deferred :=
    Schedule.Reached.deferred (onSchedule_of_reachable admits_deletable reachable)
  refine ⟨fun deleting => (deferred.pending deleting).1, fun idle => deferred.cleared ?_⟩
  rw [Bool.eq_false_iff]
  exact fun deleting => (deferred.pending deleting).1 idle

/-- The page is loading. -/
def loadingPage : ResourceHandleManager :=
  (dispatch examplePlatform .timer addedPage [.easyInit true, .multiAdd .ok, .performed]).state

/-- The cookies are to be deleted when the page is loaded. -/
def pendingPage : ResourceHandleManager :=
  (dispatch examplePlatform .clearCookies loadingPage []).state

theorem loadingPage_idle : Idle (dispatch examplePlatform) Deletable {} loadingPage := by
  have added : Idle (dispatch examplePlatform) Deletable {} addedPage :=
    .call .init (Event.add examplePage) trivial [] (by decide) rfl
  exact .call added Event.timer trivial [.easyInit true, .multiAdd .ok, .performed]
    (by decide) (by decide)

theorem cookies_cleared_pendingPage : pendingPage.cookies.cookiesDeleting = true ∧
    pendingPage.runningJobList = [0] ∧ CookiesCleared pendingPage := by
  have pending : Idle (dispatch examplePlatform) Deletable {} pendingPage :=
    .call loadingPage_idle Event.clearCookies (by decide) [] (by decide) rfl
  exact ⟨by decide, by decide, cookies_cleared (.idle pending)⟩

/-- A new proxy strands the deletion that is pending. -/
theorem setProxyInfo_strands (m : ResourceHandleManager)
    (pending : m.cookies.cookiesDeleting = true) (host : Text) (port : Nat)
    (username password : Text) (auth : Nat) :
    ¬CookiesCleared (m.setProxyInfo host port username password auth) := by
  have replaced := m.schedule_setProxyInfo host port username password auth
  rintro ⟨waits, -⟩
  apply waits
  · exact (congrArg (fun s : Schedule => s.cookies.cookiesDeleting) replaced).trans pending
  · exact congrArg Schedule.running replaced

theorem not_cookies_cleared_newProxy : ¬∀ (platform : Platform) (m : ResourceHandleManager),
    Reachable (dispatch platform) AnyEvent {} m → CookiesCleared m := by
  intro cleared
  have added : Idle (dispatch examplePlatform) AnyEvent {} addedPage :=
    .call .init (Event.add examplePage) trivial [] (fun _ _ => trivial) rfl
  have loading : Idle (dispatch examplePlatform) AnyEvent {} loadingPage :=
    .call added Event.timer trivial [.easyInit true, .multiAdd .ok, .performed]
      (fun _ _ => trivial) (by decide)
  have pending : Idle (dispatch examplePlatform) AnyEvent {} pendingPage :=
    .call loading Event.clearCookies trivial [] (fun _ _ => trivial) rfl
  have stranded : Idle (dispatch examplePlatform) AnyEvent {}
      (pendingPage.setProxyInfo (text "proxy") 8080 [] [] curlAuthBasic) :=
    .call pending (Event.setProxyInfo (text "proxy") 8080 [] [] curlAuthBasic) trivial []
      (fun _ _ => trivial) rfl
  exact setProxyInfo_strands pendingPage (by decide) (text "proxy") 8080 [] [] curlAuthBasic
    (cleared _ _ (.idle stranded))

end WkcBrowser.Network
