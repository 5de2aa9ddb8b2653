import WkcBrowser.Network.TimerTurn

/-! When the download timer is active. The manager runs only while it is, so that a job is lost if it
waits and the timer does not. -/

namespace WkcBrowser.Network

open Wtf Lib.Interaction Program ResourceHandleManager

/-- curl accepts every transfer that is added once more to answer a challenge. A job that is started
holds `starting`, so the call is one of `removeFromCurl` when nothing is started. -/
def RepeatAccepted (m : ResourceHandleManager) (event : Event) : Prop :=
  m.starting = none → ∀ code, event ≠ .multiAdd (.error code)

/-- The scheduled list is not empty or some job that runs is not finished. -/
def HasWork (m : ResourceHandleManager) : Prop :=
  m.scheduledJobList ≠ [] ∨ ∃ job ∈ m.runningJobList, m.isFinished job = false

instance (m : ResourceHandleManager) : Decidable (HasWork m) :=
  inferInstanceAs (Decidable (_ ∨ _))

theorem repeatAccepted_succeed : ReaddsSucceed RepeatAccepted :=
  fun _ code free fine => fine free code rfl

/-- No wakeup is lost in a run in which every repeated transfer is accepted. -/
theorem timer_active {platform : Platform} {m : ResourceHandleManager}
    (idle : Idle (dispatch platform) RepeatAccepted {} m) (work : HasWork m) :
    m.downloadTimer = true := by
  have rest : AtRest True m := idle.invariant (atRest_init True) fun s event rest _ =>
    meets_dispatch platform (fun _ => repeatAccepted_succeed) rest event
  apply rest.awake trivial
  apply work.imp id
  rintro ⟨job, runs, -⟩
  exact List.ne_nil_of_mem runs

def unauthorized : Info :=
  { effectiveURL := text "http://a/b", responseCode := 401, httpAuthAvail := 1, authProblem := true }

/-- The server answers with a challenge. -/
def challengeEvents : List Event :=
  [.easyInit true, .multiAdd .ok,
    .header 0 (ascii "WWW-Authenticate: Basic\r\n") unauthorized, .leave,
    .header 0 [13, 10] unauthorized, .leave]

/-- The challenge the client of the page is called with. -/
def pageChallenge : AuthenticationChallenge :=
  ((dispatch examplePlatform .timer addedPage challengeEvents).state.jobs 0).d.webChallenge.getD
    { serverType := .http, scheme := .default, proposedCredential := {}, failureResponse := {} }

/-- The client answers the challenge, and curl is asked to repeat the transfer. -/
def answeredEvents (ret : CURLMcode) : List Event :=
  challengeEvents ++ [.receivedCredential 0 pageChallenge { user := text "u" }, .leave,
    .finished 0 0, .performed, .multiAdd ret]

def answeredPage (ret : CURLMcode) : ResourceHandleManager :=
  (dispatch examplePlatform .timer addedPage (answeredEvents ret)).state

theorem timer_active_answeredPage : HasWork (answeredPage .ok) ∧
    (answeredPage .ok).downloadTimer = true := by
  have added : Idle (dispatch examplePlatform) RepeatAccepted {} addedPage :=
    .call .init (Event.add examplePage) (by simp [RepeatAccepted]) []
      (fun _ taken => by cases taken) rfl
  have accepted : ∀ step ∈ (dispatch examplePlatform .timer addedPage (answeredEvents .ok)).taken,
      RepeatAccepted step.1 step.2 := by
    have events : (dispatch examplePlatform .timer addedPage (answeredEvents .ok)).taken.map (·.2) =
        answeredEvents .ok := by decide +kernel
    intro step taken _ code
    have event : step.2 ∈ answeredEvents .ok := events ▸ List.mem_map_of_mem taken
    revert event
    generalize step.2 = event
    rintro listed rfl
    simp [answeredEvents, challengeEvents] at listed
  have answered : Idle (dispatch examplePlatform) RepeatAccepted {} (answeredPage .ok) :=
    .call added Event.timer (by simp [RepeatAccepted]) (answeredEvents .ok) accepted
      (by decide +kernel)
  have work : HasWork (answeredPage .ok) := by decide +kernel
  exact ⟨work, timer_active answered work⟩

/-- The transfer cannot be repeated. The timer fires once more and then never again. -/
def strandedPage : ResourceHandleManager :=
  (dispatch examplePlatform .timer (answeredPage (.error 3)) [.performed]).state

theorem not_timer_active_strandedPage : ¬∀ m, Idle (dispatch examplePlatform) AnyEvent {} m →
    HasWork m → m.downloadTimer = true := by
  intro always
  have added : Idle (dispatch examplePlatform) AnyEvent {} addedPage :=
    .call .init (Event.add examplePage) trivial [] (fun _ _ => trivial) rfl
  have answered : Idle (dispatch examplePlatform) AnyEvent {} (answeredPage (.error 3)) :=
    .call added Event.timer trivial (answeredEvents (.error 3)) (fun _ _ => trivial)
      (by decide +kernel)
  have stranded : Idle (dispatch examplePlatform) AnyEvent {} strandedPage :=
    .call answered Event.timer trivial [.performed] (fun _ _ => trivial) (by decide +kernel)
  have active := always strandedPage stranded (by decide +kernel)
  exact absurd active (by decide +kernel)

end WkcBrowser.Network
