import Mathlib.Algebra.Order.Ring.Int
import WkcBrowser.Lib.Along

/-! Downloads. The application starts and cancels a download, the network reports on it, and neither
looks at its status first. A notification is the last thing that a function does, so an application
that calls back in it does no more than it could do right behind it. -/

namespace WkcBrowser.Loader

open Lib

namespace WKCDownload

inductive Status where
  | EError
  | ECreated
  | EStarted
  | ECancelled
  | EFinished
  deriving DecidableEq

inductive Error where
  | EErrorNone
  | EErrorCancelled
  | EErrorNetwork
  deriving DecidableEq

/-- What the application is told. -/
inductive Notification where
  | didReceiveData (length currentLength : Int)
  | didFinishLoading
  | didFail (error : Error)
  deriving DecidableEq

end WKCDownload

open WKCDownload

structure WKCDownload where
  m_resourceHandle : Bool
  m_status : Status
  m_currentLength : Int
  m_contentLength : Int
  m_error : Error

namespace WKCDownload

def create : WKCDownload := ⟨false, .ECreated, 0, 0, .EErrorNone⟩

/-- The expected length of a response that is not null. -/
def setResponseInfo (s : WKCDownload) (response : Option Int) : WKCDownload :=
  match response with
  | none => s
  | some expectedContentLength => { s with m_contentLength := expectedContentLength }

def setResponse (s : WKCDownload) (response : Option Int) : WKCDownload :=
  if s.m_resourceHandle then s else { s with m_resourceHandle := true }.setResponseInfo response

/-- A handle is created where there is none, which may fail. -/
def start (s : WKCDownload) (created : Bool) : WKCDownload :=
  if s.m_resourceHandle ∨ created then { s with m_resourceHandle := true, m_status := .EStarted }
  else s

def cancel (s : WKCDownload) : WKCDownload × List Notification :=
  ({ s with m_status := .ECancelled, m_error := .EErrorCancelled }, [.didFail .EErrorCancelled])

def notifyReceivedData (s : WKCDownload) (length : Nat) : WKCDownload × List Notification :=
  let s := { s with m_currentLength := s.m_currentLength + length }
  (s, [.didReceiveData length s.m_currentLength])

def notifyFinishedLoading (s : WKCDownload) : WKCDownload × List Notification :=
  ({ s with m_status := .EFinished }, [.didFinishLoading])

def notifyErrorInLoading (s : WKCDownload) : WKCDownload × List Notification :=
  ({ s with m_status := .EError, m_error := .EErrorNetwork }, [.didFail .EErrorNetwork])

/-- The calls of the application and of the network. A redirect, `wasBlocked` and `cannotShowURL` are
not acted on. -/
inductive Event where
  | setResponse (response : Option Int)
  | start (created : Bool)
  | cancel
  | didReceiveResponse (response : Option Int)
  | didReceiveData (length : Nat)
  | didFinishLoading
  | didFail
  | willSendRequest
  | wasBlocked
  | cannotShowURL

def handle (s : WKCDownload) : Event → WKCDownload × List Notification
  | .setResponse response => (s.setResponse response, [])
  | .start created => (s.start created, [])
  | .cancel => s.cancel
  | .didReceiveResponse response => (s.setResponseInfo response, [])
  | .didReceiveData length => s.notifyReceivedData length
  | .didFinishLoading => s.notifyFinishedLoading
  | .didFail => s.notifyErrorInLoading
  | .willSendRequest => (s, [])
  | .wasBlocked => (s, [])
  | .cannotShowURL => (s, [])

def getStatus (s : WKCDownload) : Status := s.m_status

def getTotalSize (s : WKCDownload) : Int := max s.m_currentLength s.m_contentLength

def getCurrentSize (s : WKCDownload) : Int := s.m_currentLength

/-- Nothing where the product overflows a `long long`, or the total is zero. -/
def getProgressInPercent (s : WKCDownload) : Option Int :=
  if 100 * s.getCurrentSize < 2 ^ 63 ∧ s.getTotalSize ≠ 0 then
    some ((100 * s.getCurrentSize).tdiv s.getTotalSize)
  else none

/-- A download with what the application was told of it so far. -/
structure Told where
  download : WKCDownload
  notifications : List Notification

def step (told : Told) (event : Event) : Told :=
  let (download, notifications) := told.download.handle event
  ⟨download, told.notifications ++ notifications⟩

/-- The status that a notification stands for, where it ends the download. -/
def ending : Notification → Option Status
  | .didReceiveData _ _ => none
  | .didFinishLoading => some .EFinished
  | .didFail .EErrorCancelled => some .ECancelled
  | .didFail _ => some .EError

/-- Nothing is told behind an ending, and the status is that of the ending, or of a download that goes
on. -/
structure Consistent (told : Told) : Prop where
  last : ∀ before notification after, told.notifications = before ++ notification :: after →
    (ending notification).isSome → after = []
  ended : ∀ notification ∈ told.notifications, ∀ status, ending notification = some status →
    told.download.getStatus = status
  open_ : (∀ notification ∈ told.notifications, ending notification = none) →
    told.download.getStatus = .ECreated ∨ told.download.getStatus = .EStarted

/-- Calls that are right at any time. -/
def harmless (s : WKCDownload) : Event → Bool
  | .start created => !(s.m_resourceHandle || created)
  | .cancel => false
  | .didReceiveData _ => false
  | .didFinishLoading => false
  | .didFail => false
  | _ => true

/-- The others are right while the download has not ended. -/
def Timely (s : WKCDownload) (event : Event) : Prop :=
  s.m_status = .ECreated ∨ s.m_status = .EStarted ∨ s.harmless event = true

/-- Nothing has ended the download. -/
structure Open (told : Told) : Prop where
  notifications : ∀ notification ∈ told.notifications, ending notification = none
  status : told.download.m_status = .ECreated ∨ told.download.m_status = .EStarted

/-- The last notification ended the download, and no other one did. -/
structure Closed (told : Told) (before : List Notification) (last : Notification) : Prop where
  notifications : told.notifications = before ++ [last]
  before : ∀ notification ∈ before, ending notification = none
  last : ending last = some told.download.m_status

theorem ending_status {notification : Notification} {status : Status}
    (ends : ending notification = some status) : status ≠ .ECreated ∧ status ≠ .EStarted := by
  cases notification with
  | didReceiveData => cases ends
  | didFinishLoading =>
    obtain rfl := Option.some.inj ends
    decide
  | didFail error =>
    cases error <;> obtain rfl := Option.some.inj ends <;> decide

theorem Open.consistent {told : Told} (open_ : Open told) : Consistent told where
  last before notification after same ends := by
    have member : notification ∈ told.notifications := same ▸ List.mem_append_right _ List.mem_cons_self
    rw [open_.notifications _ member] at ends
    cases ends
  ended notification member status ends := by
    rw [open_.notifications _ member] at ends
    cases ends
  open_ _ := open_.status

theorem Closed.consistent {told : Told} {before : List Notification} {last : Notification}
    (closed : Closed told before last) : Consistent told where
  last front notification after same ends := by
    rcases List.eq_nil_or_concat after with nothing | ⟨between, final, split⟩
    · exact nothing
    · rw [closed.notifications, split, List.concat_eq_append, ← List.cons_append,
        ← List.append_assoc] at same
      obtain ⟨fronts, -⟩ := List.append_inj' same rfl
      have member : notification ∈ before := fronts ▸ List.mem_append_right _ List.mem_cons_self
      rw [closed.before _ member] at ends
      cases ends
  ended notification member status ends := by
    rw [closed.notifications] at member
    rcases List.mem_append.mp member with early | late
    · rw [closed.before _ early] at ends
      cases ends
    · rw [List.mem_singleton.mp late, closed.last] at ends
      exact Option.some.inj ends
  open_ none_ := by
    have member : last ∈ told.notifications := by
      rw [closed.notifications]
      exact List.mem_append_right _ List.mem_cons_self
    have ends := closed.last
    rw [none_ _ member] at ends
    cases ends

theorem Consistent.cases {told : Told} (consistent : Consistent told) :
    Open told ∨ ∃ before last, Closed told before last := by
  by_cases none_ : ∀ notification ∈ told.notifications, ending notification = none
  · exact .inl ⟨none_, consistent.open_ none_⟩
  · push Not at none_
    obtain ⟨last, member, ends⟩ := none_
    obtain ⟨status, ends⟩ := Option.ne_none_iff_exists'.mp ends
    obtain ⟨before, after, same⟩ := List.append_of_mem member
    obtain rfl := consistent.last before last after same (by rw [ends]; rfl)
    refine .inr ⟨before, last, same, fun notification early => ?_, ?_⟩
    · by_contra ends'
      obtain ⟨status', ends'⟩ := Option.ne_none_iff_exists'.mp ends'
      obtain ⟨front, back, split⟩ := List.append_of_mem early
      rw [split, List.append_assoc, List.cons_append] at same
      have nothing := consistent.last front notification _ same (by rw [ends']; rfl)
      exact List.append_ne_nil_of_right_ne_nil _ (List.cons_ne_nil _ _) nothing
    · rw [ends, ← consistent.ended last member status ends]
      rfl

theorem setResponseInfo_status (s : WKCDownload) (response : Option Int) :
    (s.setResponseInfo response).m_status = s.m_status := by
  cases response <;> rfl

theorem setResponse_status (s : WKCDownload) (response : Option Int) :
    (s.setResponse response).m_status = s.m_status := by
  unfold setResponse
  split
  · rfl
  · exact setResponseInfo_status _ response

/-- A harmless call tells nothing and leaves the status. -/
theorem handle_of_harmless {s : WKCDownload} {event : Event} (harmless : s.harmless event = true) :
    (s.handle event).2 = [] ∧ (s.handle event).1.m_status = s.m_status := by
  cases event with
  | setResponse response => exact ⟨rfl, setResponse_status s response⟩
  | start created =>
    refine ⟨rfl, ?_⟩
    have none_ : ¬(s.m_resourceHandle = true ∨ created = true) := by
      simpa [WKCDownload.harmless] using harmless
    rw [handle, start, if_neg none_]
  | didReceiveResponse response => exact ⟨rfl, setResponseInfo_status s response⟩
  | cancel => cases harmless
  | didReceiveData => cases harmless
  | didFinishLoading => cases harmless
  | didFail => cases harmless
  | willSendRequest => exact ⟨rfl, rfl⟩
  | wasBlocked => exact ⟨rfl, rfl⟩
  | cannotShowURL => exact ⟨rfl, rfl⟩

theorem Open.tell {told : Told} (open_ : Open told) {download : WKCDownload}
    {notification : Notification} (ends : ending notification = some download.m_status) :
    Consistent ⟨download, told.notifications ++ [notification]⟩ := by
  have closed : Closed ⟨download, told.notifications ++ [notification]⟩ told.notifications notification :=
    ⟨rfl, open_.notifications, ends⟩
  exact closed.consistent

/-- While nothing has ended the download every call is right. -/
theorem Open.step {told : Told} (open_ : Open told) (event : Event) :
    Consistent (step told event) := by
  by_cases harmless : told.download.harmless event = true
  · obtain ⟨silent, status⟩ := handle_of_harmless harmless
    refine Open.consistent ⟨?_, ?_⟩
    · change ∀ notification ∈ told.notifications ++ (told.download.handle event).2, _
      rw [silent, List.append_nil]
      exact open_.notifications
    · change (told.download.handle event).1.m_status = _ ∨ (told.download.handle event).1.m_status = _
      rw [status]
      exact open_.status
  · cases event with
    | start created =>
      refine Open.consistent ⟨?_, .inr ?_⟩
      · change ∀ notification ∈ told.notifications ++ [], _
        rw [List.append_nil]
        exact open_.notifications
      · have some_ : told.download.m_resourceHandle = true ∨ created = true := by
          simpa [WKCDownload.harmless, or_iff_not_imp_left] using harmless
        change (told.download.start created).m_status = _
        rw [start, if_pos some_]
    | didReceiveData length =>
      refine Open.consistent ⟨fun notification member => ?_, open_.status⟩
      rcases List.mem_append.mp member with early | late
      · exact open_.notifications _ early
      · rw [List.mem_singleton.mp late]
        rfl
    | cancel => exact open_.tell rfl
    | didFinishLoading => exact open_.tell rfl
    | didFail => exact open_.tell rfl
    | setResponse => exact absurd rfl harmless
    | didReceiveResponse => exact absurd rfl harmless
    | willSendRequest => exact absurd rfl harmless
    | wasBlocked => exact absurd rfl harmless
    | cannotShowURL => exact absurd rfl harmless

/-- A notification behind the last one is wrong. -/
theorem Closed.not_tell {told : Told} {before : List Notification} {last : Notification}
    (closed : Closed told before last) {download : WKCDownload} {notification : Notification} :
    ¬Consistent ⟨download, told.notifications ++ [notification]⟩ := by
  intro consistent
  have nothing := consistent.last before last [notification]
    (by rw [closed.notifications, List.append_assoc, List.singleton_append])
    (by rw [closed.last]; rfl)
  cases nothing

/-- Once the download has ended only harmless calls are right. -/
theorem Closed.step_iff {told : Told} {before : List Notification} {last : Notification}
    (closed : Closed told before last) (event : Event) :
    Consistent (step told event) ↔ told.download.harmless event = true := by
  constructor
  · intro consistent
    cases event with
    | start created =>
      by_contra harmful
      have some_ : told.download.m_resourceHandle = true ∨ created = true := by
        simpa [WKCDownload.harmless, or_iff_not_imp_left] using harmful
      have member : last ∈ (step told (.start created)).notifications := by
        change last ∈ told.notifications ++ []
        rw [List.append_nil, closed.notifications]
        exact List.mem_append_right _ List.mem_cons_self
      have started : (step told (.start created)).download.getStatus = .EStarted := by
        change (told.download.start created).m_status = _
        rw [start, if_pos some_]
      rw [consistent.ended last member _ closed.last] at started
      exact (ending_status closed.last).2 started
    | cancel => exact absurd consistent closed.not_tell
    | didReceiveData => exact absurd consistent closed.not_tell
    | didFinishLoading => exact absurd consistent closed.not_tell
    | didFail => exact absurd consistent closed.not_tell
    | setResponse => rfl
    | didReceiveResponse => rfl
    | willSendRequest => rfl
    | wasBlocked => rfl
    | cannotShowURL => rfl
  · intro harmless
    obtain ⟨silent, status⟩ := handle_of_harmless harmless
    have still : Closed (step told event) before last := by
      refine ⟨?_, closed.before, ?_⟩
      · change told.notifications ++ (told.download.handle event).2 = _
        rw [silent, List.append_nil, closed.notifications]
      · change _ = some (told.download.handle event).1.m_status
        rw [status]
        exact closed.last
    exact still.consistent

theorem step_consistent_iff {told : Told} (consistent : Consistent told) (event : Event) :
    Consistent (step told event) ↔ Timely told.download event := by
  rcases consistent.cases with open_ | ⟨before, last, closed⟩
  · refine iff_of_true (open_.step event) ?_
    rcases open_.status with created | started
    · exact .inl created
    · exact .inr (.inl started)
  · obtain ⟨notCreated, notStarted⟩ := ending_status closed.last
    rw [closed.step_iff, Timely]
    exact ⟨fun harmless => .inr (.inr harmless), fun timely =>
      (timely.resolve_left notCreated).resolve_left notStarted⟩

/-- What the application is told of a download is consistent at every moment exactly when the calls that
tell or start something come before its end. -/
theorem consistent_along_iff (events : List Event) :
    Along step (fun told event => Consistent (step told event)) ⟨create, []⟩ events ↔
      Along step (fun told event => Timely told.download event) ⟨create, []⟩ events := by
  have admitted : Along step (fun _ _ => True) ⟨create, []⟩ events :=
    along_of_forall (fun _ _ => trivial) _ _
  refine along_iff Consistent (fun told event consistent _ => step_consistent_iff consistent event)
    (fun _ _ _ _ next => next) _ events ?_ admitted
  exact Open.consistent ⟨List.forall_mem_nil _, .inl rfl⟩

/-- A download that is cancelled after its end ends twice. -/
theorem not_consistent_along :
    ¬∀ events, Along step (fun told event => Consistent (step told event)) ⟨create, []⟩ events := by
  intro all
  obtain ⟨-, -, consistent, -⟩ := all [.start true, .didFinishLoading, .cancel]
  have nothing := consistent.last [] .didFinishLoading [.didFail .EErrorCancelled] rfl rfl
  cases nothing

/-! The progress. The total is the larger one of what was received and what is expected. -/

def change (s : WKCDownload) (event : Event) : WKCDownload := (s.handle event).1

/-- The progress is a percentage. -/
def Shown (s : WKCDownload) : Prop :=
  ∃ percent, s.getProgressInPercent = some percent ∧ 0 ≤ percent ∧ percent ≤ 100

/-- The progress behind the event is a percentage again, and no smaller one. -/
def Rises (s : WKCDownload) (event : Event) : Prop :=
  (s.change event).Shown ∧ ∀ percent percent', s.getProgressInPercent = some percent →
    (s.change event).getProgressInPercent = some percent' → percent ≤ percent'

/-- Something was received, or something is expected. -/
def Known (s : WKCDownload) : Prop :=
  (0 < s.m_currentLength ∨ 0 < s.m_contentLength) ∧ 100 * s.m_currentLength < 2 ^ 63

/-- An expected length leaves a total, of which what was received is still the part it was, in whole
percents. -/
def Expects (s : WKCDownload) (expectedContentLength : Int) : Prop :=
  (0 < s.m_currentLength ∨ 0 < expectedContentLength) ∧
    100 * s.m_currentLength / max s.m_currentLength s.m_contentLength *
      max s.m_currentLength expectedContentLength ≤ 100 * s.m_currentLength

/-- What an event may bring while the progress is known. -/
def Steady (s : WKCDownload) : Event → Prop
  | .setResponse (some length) => s.m_resourceHandle = false → s.Expects length
  | .didReceiveResponse (some length) => s.Expects length
  | .didReceiveData length => 100 * (s.m_currentLength + length) < 2 ^ 63
  | _ => True

theorem change_currentLength (s : WKCDownload) (event : Event) :
    (s.change event).m_currentLength = s.m_currentLength ∨
      ∃ length, event = .didReceiveData length ∧
        s.change event = { s with m_currentLength := s.m_currentLength + length } := by
  cases event with
  | didReceiveData length => exact .inr ⟨length, rfl, rfl⟩
  | setResponse response =>
    refine .inl ?_
    change (s.setResponse response).m_currentLength = _
    unfold setResponse
    split
    · rfl
    · cases response <;> rfl
  | start created =>
    refine .inl ?_
    change (s.start created).m_currentLength = _
    unfold start
    split <;> rfl
  | didReceiveResponse response => cases response <;> exact .inl rfl
  | cancel => exact .inl rfl
  | didFinishLoading => exact .inl rfl
  | didFail => exact .inl rfl
  | willSendRequest => exact .inl rfl
  | wasBlocked => exact .inl rfl
  | cannotShowURL => exact .inl rfl

theorem received_after (events : List Event) (s : WKCDownload) (received : 0 ≤ s.m_currentLength) :
    0 ≤ (after change s events).m_currentLength := by
  have always : Along change (fun _ _ => True) s events := along_of_forall (fun _ _ => trivial) _ _
  refine after_of_along (fun s => 0 ≤ s.m_currentLength) (fun s event received _ => ?_) s events
    received always
  rcases s.change_currentLength event with same | ⟨length, -, same⟩
  · rw [same]
    exact received
  · rw [same]
    dsimp only
    omega

section
variable {s : WKCDownload} {event : Event}

theorem getTotalSize_pos (received : 0 ≤ s.m_currentLength) :
    s.getTotalSize ≠ 0 ↔ 0 < s.m_currentLength ∨ 0 < s.m_contentLength := by
  unfold getTotalSize
  omega

theorem getProgressInPercent_of_known (known : s.Known) (received : 0 ≤ s.m_currentLength) :
    s.getProgressInPercent = some (100 * s.m_currentLength / s.getTotalSize) := by
  have total := (getTotalSize_pos received).mpr known.1
  rw [getProgressInPercent, if_pos ⟨known.2, total⟩, getCurrentSize,
    Int.tdiv_eq_ediv_of_nonneg (by omega)]

theorem shown_iff (received : 0 ≤ s.m_currentLength) : s.Shown ↔ s.Known := by
  constructor
  · rintro ⟨percent, same, -⟩
    unfold getProgressInPercent at same
    split at same
    · rename_i both
      exact ⟨(getTotalSize_pos received).mp both.2, both.1⟩
    · cases same
  · intro known
    have total := (getTotalSize_pos received).mpr known.1
    have positive : 0 < s.getTotalSize := by
      unfold getTotalSize at total ⊢
      omega
    refine ⟨_, getProgressInPercent_of_known known received, ?_, ?_⟩
    · exact Int.ediv_nonneg (by omega) (by omega)
    · refine Int.ediv_le_of_le_mul positive ?_
      have part : s.m_currentLength ≤ s.getTotalSize := le_max_left _ _
      omega

/-- The progress does not fall when the part is still as large, in whole percents. -/
theorem rises_iff_of_known (known : s.Known) (received : 0 ≤ s.m_currentLength)
    (received' : 0 ≤ (s.change event).m_currentLength) :
    s.Rises event ↔ (s.change event).Known ∧
      100 * s.m_currentLength / s.getTotalSize * (s.change event).getTotalSize ≤
        100 * (s.change event).m_currentLength := by
  unfold Rises
  rw [shown_iff received']
  refine and_congr_right fun known' => ?_
  have total := (getTotalSize_pos received').mpr known'.1
  have positive : 0 < (s.change event).getTotalSize := by
    unfold getTotalSize at total ⊢
    omega
  rw [getProgressInPercent_of_known known received, getProgressInPercent_of_known known' received',
    ← Int.le_ediv_iff_mul_le positive]
  constructor
  · exact fun rises => rises _ _ rfl rfl
  · rintro rises percent percent' same same'
    rw [← Option.some.inj same, ← Option.some.inj same']
    exact rises

theorem rises_iff_expects (known : s.Known) (received : 0 ≤ s.m_currentLength) {length : Int}
    (same : (s.change event).m_currentLength = s.m_currentLength)
    (expected : (s.change event).m_contentLength = length) : s.Rises event ↔ s.Expects length := by
  rw [rises_iff_of_known known received (by omega), Known, Expects, getTotalSize, getTotalSize, same,
    expected, and_iff_left known.2]

theorem expects_same (known : s.Known) : s.Expects s.m_contentLength := by
  refine ⟨known.1, Int.ediv_mul_le _ ?_⟩
  have := known.1
  omega

/-- An event that leaves both lengths leaves the progress. -/
theorem rises_of_same (known : s.Known) (received : 0 ≤ s.m_currentLength)
    (same : (s.change event).m_currentLength = s.m_currentLength)
    (expected : (s.change event).m_contentLength = s.m_contentLength) : s.Rises event :=
  (rises_iff_expects known received same expected).mpr (expects_same known)

/-- Data makes the progress no smaller, whatever is expected. -/
theorem rises_data_iff (known : s.Known) (received : 0 ≤ s.m_currentLength) (length : Nat) :
    s.Rises (.didReceiveData length) ↔ 100 * (s.m_currentLength + length) < 2 ^ 63 := by
  have size : (s.change (.didReceiveData length)).m_currentLength = s.m_currentLength + length := rfl
  have expected : (s.change (.didReceiveData length)).m_contentLength = s.m_contentLength := rfl
  have positive : 0 < max s.m_currentLength s.m_contentLength := by
    have := known.1
    omega
  have part : 100 * s.m_currentLength / max s.m_currentLength s.m_contentLength ≤ 100 := by
    refine Int.ediv_le_of_le_mul positive ?_
    have := le_max_left s.m_currentLength s.m_contentLength
    omega
  have floor := Int.ediv_mul_le (100 * s.m_currentLength) positive.ne'
  have more : 100 * s.m_currentLength / max s.m_currentLength s.m_contentLength *
      max (s.m_currentLength + length) s.m_contentLength ≤ 100 * (s.m_currentLength + length) := by
    rcases le_total (s.m_currentLength + length) s.m_contentLength with few | many
    · rw [max_eq_right few]
      rw [max_eq_right (by omega : s.m_currentLength ≤ s.m_contentLength)] at floor ⊢
      omega
    · rw [max_eq_left many]
      exact Int.mul_le_mul_of_nonneg_right part (by omega)
  rw [rises_iff_of_known known received (by omega), Known, getTotalSize, getTotalSize, size, expected,
    and_iff_left more]
  refine and_iff_right ?_
  have := known.1
  omega

theorem rises_iff_steady (known : s.Known) (received : 0 ≤ s.m_currentLength) :
    s.Rises event ↔ s.Steady event := by
  cases event with
  | didReceiveData length => exact rises_data_iff known received length
  | didReceiveResponse response =>
    cases response with
    | none => exact iff_of_true (rises_of_same known received rfl rfl) trivial
    | some length => exact rises_iff_expects known received rfl rfl
  | setResponse response =>
    cases handle : s.m_resourceHandle with
    | true =>
      have same : s.change (.setResponse response) = s := if_pos handle
      refine iff_of_true (rises_of_same known received ?_ ?_) ?_
      · rw [same]
      · rw [same]
      · cases response with
        | none => trivial
        | some length =>
          intro missing
          rw [handle] at missing
          cases missing
    | false =>
      have changed : s.change (.setResponse response) =
          { s with m_resourceHandle := true }.setResponseInfo response :=
        if_neg (by rw [handle]; exact Bool.false_ne_true)
      cases response with
      | none =>
        refine iff_of_true (rises_of_same known received ?_ ?_) trivial
        · rw [changed]
          rfl
        · rw [changed]
          rfl
      | some length =>
        have expects : s.Rises (.setResponse (some length)) ↔ s.Expects length := by
          refine rises_iff_expects known received ?_ ?_
          · rw [changed]
            rfl
          · rw [changed]
            rfl
        exact expects.trans ⟨fun expects _ => expects, fun expects => expects handle⟩
  | start created =>
    refine iff_of_true (rises_of_same known received ?_ ?_) trivial
    · change (s.start created).m_currentLength = _
      unfold start
      split <;> rfl
    · change (s.start created).m_contentLength = _
      unfold start
      split <;> rfl
  | cancel => exact iff_of_true (rises_of_same known received rfl rfl) trivial
  | didFinishLoading => exact iff_of_true (rises_of_same known received rfl rfl) trivial
  | didFail => exact iff_of_true (rises_of_same known received rfl rfl) trivial
  | willSendRequest => exact iff_of_true (rises_of_same known received rfl rfl) trivial
  | wasBlocked => exact iff_of_true (rises_of_same known received rfl rfl) trivial
  | cannotShowURL => exact iff_of_true (rises_of_same known received rfl rfl) trivial

end

/-- From any state that a download comes to, the progress is a percentage that never falls exactly when
something was received or is expected there, and every event keeps it so. -/
theorem progress_along_iff (before events : List Event) :
    (after change create before).Shown ∧
        Along change Rises (after change create before) events ↔
      (after change create before).Known ∧
        Along change Steady (after change create before) events := by
  have received := received_after before create (by decide)
  generalize after change create before = s at received ⊢
  rw [shown_iff received]
  refine and_congr_right fun known => ?_
  have admitted : Along change (fun _ _ => True) s events := along_of_forall (fun _ _ => trivial) _ _
  refine along_iff (fun s => s.Known ∧ 0 ≤ s.m_currentLength)
    (fun s event facts _ => rises_iff_steady facts.1 facts.2) (fun s event facts _ rises => ?_) s
    events ⟨known, received⟩ admitted
  have received' := received_after [event] s facts.2
  exact ⟨(shown_iff received').mp rises.1, received'⟩

/-- Before the response there is no total to divide by. -/
theorem not_shown : ¬∀ events, (after change create events).Shown := by
  intro all
  obtain ⟨percent, same, -⟩ := all [.start true]
  cases same

end WKCDownload
end WkcBrowser.Loader
