import Mathlib.Logic.Relation
import WkcBrowser.Network.ResourceHandleManager

/-! The scheduler without the transfers: which jobs wait, which run, which of them are scripts and what
is left to do about the cookies, and the acts that change it. An act says once what one step of the
manager can do to the lists, and under which circumstances. -/

namespace WkcBrowser.Network

structure Schedule where
  created : Nat := 0
  scheduled : List Nat := []
  running : List Nat := []
  starting : Option Nat := none
  sequential : Bool := false
  script : Nat → Bool := fun _ => false
  handle : Nat → Bool := fun _ => false
  cookies : CookieShare := {}
  starts : List Start := []

namespace Schedule
variable (s : Schedule) (job : Nat)

def idle : Bool :=
  decide (s.running.length = 0)

def inUse : Bool :=
  decide (0 < s.cookies.leaked) || (List.range s.created).any s.handle

def flush : Schedule :=
  { s with cookies := s.cookies.flush s.idle s.inUse }

def request : Schedule :=
  { s with cookies := { s.cookies with requested := s.cookies.requested + 1 }.clear s.idle s.inUse }

def submit (script : Bool) : Schedule :=
  { s with
    created := s.created + 1
    scheduled := s.scheduled ++ [s.created]
    script := Function.update s.script s.created script
    handle := Function.update s.handle s.created false }

def drop : Schedule :=
  { s with scheduled := s.scheduled.erase job }

def take (start : Start) : Schedule :=
  { s with
    scheduled := s.scheduled.erase start.job
    starting := some start.job
    starts := s.starts ++ [start] }

def setHandle (found : Bool) : Schedule :=
  { s with handle := Function.update s.handle job found }

def place : Schedule :=
  { s with
    running := s.running ++ [job]
    starting := none
    sequential := s.sequential || s.script job }

def refuse : Schedule :=
  { s with
    starting := none
    handle := Function.update s.handle job false
    cookies := { s.cookies with leaked := s.cookies.leaked + if s.handle job then 1 else 0 } }

def remove : Schedule :=
  { s with
    running := s.running.erase job
    sequential := s.sequential && !s.script job
    handle := Function.update s.handle job false }

def replace : Schedule :=
  { s with
    scheduled := []
    running := []
    sequential := false
    handle := fun job => s.handle job && decide (job ∉ s.running) }

end Schedule

/-- A start that happens as the state of the lists demands. The jobs in front of the one that is
started are held back. -/
structure Start.Fits (start : Start) (s : Schedule) : Prop where
  free : s.starting = none
  room : start.running.length < start.tcpConnections
  challenge : start.willChallengeProxyAuth = true → start.running = []
  running : start.running = s.running
  sequential : start.jsSequential = s.sequential
  script : start.isJSRequestatFirst = s.script start.job
  unheld : s.sequential = true → s.script start.job = false
  next : ∃ front back, s.scheduled = front ++ start.job :: back ∧
    ∀ job ∈ front, s.sequential = true ∧ s.script job = true

inductive Act where
  | submit (script : Bool)
  | drop (job : Nat)
  | request
  | take (start : Start)
  | setHandle (job : Nat) (found : Bool)
  | place (job : Nat)
  | refuse (job : Nat)
  | leave (job : Nat)
  | flush
  | replace

/-- What one act can do. A job that leaves lets the deletion of cookies be tried again. -/
inductive Schedule.Step : Schedule → Act → Schedule → Prop where
  | submit (s : Schedule) (script : Bool) : Step s (.submit script) (s.submit script)
  | drop {s : Schedule} {job : Nat} (waits : job ∈ s.scheduled) : Step s (.drop job) (s.drop job)
  | request {s : Schedule} (calm : ∀ job, s.starting = some job → s.handle job = false) :
    Step s .request s.request
  | take {s : Schedule} {start : Start} (fits : start.Fits s) : Step s (.take start) (s.take start)
  | setHandle {s : Schedule} {job : Nat} (starts : s.starting = some job) (found : Bool) :
    Step s (.setHandle job found) (s.setHandle job found)
  | place {s : Schedule} {job : Nat} (starts : s.starting = some job)
    (handle : s.handle job = true) : Step s (.place job) (s.place job)
  | refuse {s : Schedule} {job : Nat} (starts : s.starting = some job) :
    Step s (.refuse job) (s.refuse job)
  | leave {s : Schedule} {job : Nat} (free : s.starting = none) (runs : job ∈ s.running) :
    Step s (.leave job) (s.remove job).flush
  | flush (s : Schedule) : Step s .flush s.flush
  | replace {s : Schedule} (free : s.starting = none) : Step s .replace s.replace

/-- The acts of clients. -/
def Act.byClient : Act → Bool
  | .submit _ | .drop _ | .request => true
  | _ => false

section
variable {fine : Schedule → Act → Prop}

/-- What the schedule becomes while clients act. -/
def Schedule.Played (fine : Schedule → Act → Prop) : Schedule → Schedule → Prop :=
  Relation.ReflTransGen fun s s' => ∃ act, act.byClient = true ∧ fine s act ∧ s.Step act s'

/-- The schedules that fine acts lead to. -/
inductive Schedule.Reached (fine : Schedule → Act → Prop) : Schedule → Prop where
  | init : Reached fine {}
  | step {s s' : Schedule} {act : Act} (reached : Reached fine s) (allowed : fine s act)
    (step : s.Step act s') : Reached fine s'

theorem Schedule.Reached.invariant {keeps : Schedule → Prop} (start : keeps {})
    (kept : ∀ s act s', keeps s → fine s act → s.Step act s' → keeps s') {s : Schedule}
    (reached : s.Reached fine) : keeps s := by
  induction reached with
  | init => exact start
  | step _ allowed step ih => exact kept _ _ _ ih allowed step

theorem Schedule.Reached.played {s s' : Schedule} (reached : s.Reached fine)
    (played : s.Played fine s') : s'.Reached fine := by
  induction played with
  | refl => exact reached
  | tail _ step ih =>
    obtain ⟨act, -, allowed, step⟩ := step
    exact ih.step allowed step

/-- The clients leave the job alone that is started. -/
theorem Schedule.Played.starting {s s' : Schedule} (played : s.Played fine s') :
    s'.starting = s.starting := by
  induction played with
  | refl => rfl
  | tail _ step ih =>
    obtain ⟨act, byClient, -, step⟩ := step
    cases step <;> first | exact ih | cases byClient

/-- The clients initialize no transfer. -/
theorem Schedule.Played.handle {s s' : Schedule} (played : s.Played fine s') {job : Nat}
    (unset : s.handle job = false) : s'.handle job = false := by
  induction played with
  | refl => exact unset
  | tail _ step ih =>
    obtain ⟨act, byClient, -, step⟩ := step
    cases step with
    | submit script =>
      rw [Schedule.submit]
      dsimp only
      rw [Function.update_apply]
      split
      · rfl
      · exact ih
    | drop | request => exact ih
    | _ => cases byClient

/-- A transfer belongs to a job that runs or is started. -/
def Schedule.Owned (s : Schedule) : Prop :=
  ∀ job, s.handle job = true → job ∈ s.running ∨ s.starting = some job

theorem Schedule.Owned.step {s s' : Schedule} {act : Act} (held : s.Owned) (step : s.Step act s') :
    s'.Owned := by
  cases step with
  | submit script =>
    intro job set
    rw [submit] at set
    dsimp only at set
    rw [Function.update_apply] at set
    split at set
    · cases set
    · exact held job set
  | drop | request | flush => exact held
  | take fits =>
    intro job set
    have runs := held job set
    rw [fits.free] at runs
    exact Or.inl (runs.resolve_right (by simp))
  | setHandle starts found =>
    intro job set
    rw [setHandle] at set
    dsimp only at set
    rw [Function.update_apply] at set
    split at set
    · rename_i same
      exact Or.inr (same ▸ starts)
    · exact held job set
  | place starts handle =>
    intro job set
    rcases held job set with runs | same
    · exact Or.inl (List.mem_append_left _ runs)
    · obtain rfl := Option.some.inj (starts.symm.trans same)
      exact Or.inl (List.mem_append_right _ List.mem_cons_self)
  | refuse starts =>
    intro job set
    rw [refuse] at set
    dsimp only at set
    rw [Function.update_apply] at set
    split at set
    · cases set
    · rename_i different
      refine Or.inl ((held job set).resolve_right fun same => different ?_)
      exact Option.some.inj (same.symm.trans starts)
  | leave free runs =>
    intro job set
    rw [flush, remove] at set
    dsimp only at set
    rw [Function.update_apply] at set
    split at set
    · cases set
    · rename_i different
      exact (held job set).imp (fun runs => (List.mem_erase_of_ne different).mpr runs) id
  | replace free =>
    intro job set
    obtain ⟨set, gone⟩ : s.handle job = true ∧ job ∉ s.running := by simpa [replace] using set
    exact Or.inr ((held job set).resolve_left gone)

theorem Schedule.Reached.owned {s : Schedule} (reached : s.Reached fine) : s.Owned :=
  reached.invariant (fun _ set => nomatch set) fun _ _ _ owned _ step => owned.step step

/-- While a job runs the deletion is put off again. -/
theorem Schedule.flush_of_running {s : Schedule} (busy : s.running ≠ []) : s.flush = s := by
  have notIdle : s.idle = false := by simpa [idle] using busy
  rw [flush, notIdle, CookieShare.flush]
  cases deleting : s.cookies.cookiesDeleting with
  | false => rfl
  | true =>
    have again : { s.cookies with cookiesDeleting := true } = s.cookies := by rw [← deleting]
    simp [CookieShare.clear, again]

end

end WkcBrowser.Network
