import WkcBrowser.Network.Endings
import WkcBrowser.Network.TimerTurn

/-! Every load is told its end once, in every run in which the clients and curl keep to the events of
`Honoured`. -/

namespace WkcBrowser.Network

open Wtf Lib.Interaction Program ResourceHandleManager
open Lib.Loop (Turn)

section
variable {platform : Platform} {m m' : ResourceHandleManager}

/-- The jobs that a new proxy drops leave. -/
theorem Telling.setProxyInfo (telling : Telling platform none m) (idle : m.starting = none)
    (settled : ∀ job < m.created, (m.view job).held = true → (m.view job).Settled)
    (host : Text) (port : Nat) (username password : Text) (auth : Nat) :
    Telling platform none (m.setProxyInfo host port username password auth) := by
  obtain ⟨inOrder, starting, scheduled, running⟩ :=
    sound_setProxyInfo telling.inOrder idle host port username password auth
  obtain ⟨history, created, multi, told⟩ := m.setProxyInfo_told host port username password auth
  refine ⟨inOrder, ?_, by simp, m.setProxyInfo_credentials host port username password auth, ?_⟩
  · rw [history, created]
    exact telling.known
  · intro job known
    rw [created] at known
    have before := telling.told job known
    obtain ⟨transfer, client, response⟩ := told job
    rw [decide_eq_false (by simp)] at before ⊢
    apply before.leave
    · cases held : (m.view job).held with
      | true => exact settled job known held
      | false => exact before.gone held
    · change entries _ job = entries _ job
      rw [entries, entries, history]
    · exact transfer
    · exact client
    · exact congrArg ResourceResponse.responseFired response
    · simp [View.held, view, scheduled, running, starting]
    · simp [view, multi]

theorem meets_timerTurn (telling : Telling platform none m) (settled : Settled False m) :
    Meets (Honoured platform) (Accounted platform) (downloadTimerCallback platform) m
      fun _ m' => Telling platform none m' := by
  apply meets_bind
  apply ((meets_launchJobs ⟨telling, settled.free⟩).and
    (meets_startScheduledJobs platform settled)).mono
  intro _ m₁ ⟨free₁, launched₁, _⟩
  apply meets_bind
  apply ((meets_reports free₁.telling).and (meets_curlMultiPerform platform launched₁.settled)).mono
  intro runningHandles m₂ ⟨telling₂, settled₂, _⟩
  have read₂ : Read False runningHandles m₂ := ⟨settled₂, False.elim⟩
  apply meets_bind
  apply ((meets_readMessages telling₂).and (meets_messages platform False.elim read₂)).mono
  intro _ m₃ ⟨telling₃, read₃, empty₃⟩
  have telling₄ : Telling platform none m₃.cancelScheduledJobs :=
    (telling₃.cancelJobs m₃.runningJobList.length).cookies _
  have free₄ := (read₃.cancelJobs empty₃ m₃.runningJobList.length).1.settled.free
  apply meets_bind
  apply meets_update
  apply meets_bind
  apply (meets_launchJobs ⟨telling₄, free₄⟩).mono
  intro started m₅ free₅
  apply meets_bind
  apply meets_read
  apply meets_ite
  · exact fun _ => meets_update ⟨free₅.telling.inOrder, free₅.telling.known, free₅.telling.listed,
      free₅.telling.credentials, free₅.telling.told⟩
  · exact fun _ => meets_pure free₅.telling

theorem meets_call (telling : Telling platform none m) (rest : AtRest False m) {event : Event}
    (fine : Honoured platform m event) :
    Meets (Honoured platform) (Accounted platform) (dispatch platform event) m
      fun _ m' => Telling platform none m' := by
  have client : Telling platform none (actOutside platform m event) := by
    unfold actOutside
    cases accepted : clientEvent m event with
    | none => exact telling
    | some act => exact (clientAct_telling telling accepted fine).1
  cases event with
  | timer =>
    apply meets_bind
    apply meets_read
    apply meets_ite
    · intro _
      apply meets_bind
      apply meets_update
      have settled := rest.settled
      exact meets_timerTurn
        ⟨telling.inOrder, telling.known, telling.listed, telling.credentials, telling.told⟩
        ⟨settled.inOrder, settled.free, settled.added⟩
    · exact fun _ => meets_pure telling
  | setProxyInfo host port username password auth =>
    exact meets_update (telling.setProxyInfo rest.settled.free fine host port username password auth)
  | setMaxTCPConnections number =>
    apply meets_update
    unfold ResourceHandleManager.setMaxTCPConnections
    split
    · exact ⟨telling.inOrder, telling.known, telling.listed, telling.credentials, telling.told⟩
    · exact telling
  | _ => exact meets_update client

theorem telling_init : Telling platform none {} where
  inOrder := (atRest_init False).settled.inOrder
  known := by simp
  listed := by simp
  credentials := by simp [hasProxyUserPass]
  told := by simp

/-- What holds between two calls. -/
def Resting (platform : Platform) (m : ResourceHandleManager) : Prop :=
  Telling platform none m ∧ AtRest False m

theorem meets_resting (resting : Resting platform m) {event : Event}
    (fine : Honoured platform m event) :
    Meets (Honoured platform) (Accounted platform) (dispatch platform event) m
      fun _ m' => Resting platform m' :=
  (meets_call resting.1 resting.2 fine).and (meets_dispatch platform False.elim resting.2 event)

theorem resting_init : Resting platform {} := ⟨telling_init, atRest_init False⟩

/-- The load of a job ends once, after a response if there was data, without the data of a response
that curl went on from, and in silence after the client cancelled it. A job that left was told the
end, or its client cancelled it or has let go of it. -/
def EndsOnce (m : ResourceHandleManager) (job : Nat) : Prop :=
  Orderly (m.entries job) ∧
    (job < m.created → (m.view job).held = false → (m.view job).Settled)

/-- In a run of honoured events every load ends once, and not while its job is in a list. -/
theorem load_ends_once (reachable : Reachable (dispatch platform) (Honoured platform) {} m)
    (job : Nat) :
    EndsOnce m job ∧ (Idle (dispatch platform) (Honoured platform) {} m → job < m.created →
      (m.view job).held = true → (m.view job).terminals = 0) := by
  obtain ⟨finishing, telling⟩ : Accounted platform m :=
    reachable.invariant resting_init (fun _ resting => resting.1.accounted)
      fun s event resting fine => meets_resting resting fine
  refine ⟨⟨?_, fun known => (telling.told job known).gone⟩, fun idle known held => ?_⟩
  · by_cases known : job < m.created
    · exact (telling.told job known).orderly
    · have empty : m.entries job = [] := by
        apply List.filter_eq_nil_iff.mpr
        intro entry member
        have listed := telling.known entry member
        simp only [decide_eq_true_eq]
        omega
      rw [empty]
      constructor <;> simp
  · have resting : Resting platform m :=
      idle.invariant resting_init fun s event resting fine => meets_resting resting fine
    exact (resting.1.told job known).pending held (by simp)

end

/-- The page is loaded in one response. -/
def loadEvents : List Event :=
  [.easyInit true, .multiAdd .ok,
    .header 0 [13, 10] { effectiveURL := text "http://a/b", responseCode := 200 }, .leave, .leave,
    .body 0 [104, 105], .leave, .leave, .finished 0 0, .performed, .leave]

def loadedPage : ResourceHandleManager :=
  (dispatch examplePlatform .timer addedPage loadEvents).state

theorem load_ends_once_loadedPage : (loadedPage.view 0).held = false ∧
    (loadedPage.view 0).Settled ∧ (loadedPage.view 0).terminals = 1 := by
  have added : Idle (dispatch examplePlatform) (Honoured examplePlatform) {} addedPage :=
    .call .init (Event.add examplePage) (by decide) [] (fun _ taken => by cases taken) rfl
  have loaded : Idle (dispatch examplePlatform) (Honoured examplePlatform) {} loadedPage :=
    .call added Event.timer trivial loadEvents (by decide +kernel) (by decide +kernel)
  have ends := (load_ends_once (.idle loaded) 0).1.2 (by decide +kernel) (by decide +kernel)
  exact ⟨by decide +kernel, ends, by decide +kernel⟩

/-- curl has no handle for the page. -/
def unstartedPage : ResourceHandleManager :=
  (dispatch examplePlatform .timer addedPage [.easyInit false, .performed]).state

theorem not_load_ends_once_unstartedPage : ¬∀ m, Idle (dispatch examplePlatform) AnyEvent {} m →
    ∀ job, EndsOnce m job := by
  intro always
  have added : Idle (dispatch examplePlatform) AnyEvent {} addedPage :=
    .call .init (Event.add examplePage) trivial [] (fun _ _ => trivial) rfl
  have unstarted : Idle (dispatch examplePlatform) AnyEvent {} unstartedPage :=
    .call added Event.timer trivial [.easyInit false, .performed] (fun _ _ => trivial)
      (by decide)
  have ends := (always unstartedPage unstarted 0).2 (by decide) (by decide)
  exact absurd ends (by decide)

end WkcBrowser.Network
