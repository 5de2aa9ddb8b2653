import WkcBrowser.Network.Life
import WkcBrowser.Network.Steady

/-! The lives of all jobs of the manager. What is done to one job leaves the lives of the others
alone, and what a client does while it is called leaves the transfers alone. -/

namespace WkcBrowser.Network

open Wtf Lib.Interaction Program

namespace ResourceHandleManager

section
variable (m : ResourceHandleManager) (job : Nat)

/-- What happened to the job. -/
def entries : List Entry :=
  m.history.filter fun entry => decide (entry.job = job)

def view : View where
  d := (m.jobs job).d
  transfer := (m.jobs job).transfer
  scheduled := decide (job ∈ m.scheduledJobList)
  running := decide (job ∈ m.runningJobList)
  starting := decide (m.starting = some job)
  added := decide (job ∈ m.multi)
  proxy := m.proxy
  entries := m.entries job

theorem view_change (f : ResourceHandle → ResourceHandle) (other : Nat) :
    (m.change job f).view other =
      if other = job then
        { m.view job with d := (f (m.jobs job)).d, transfer := (f (m.jobs job)).transfer }
      else m.view other := by
  rw [view, change_jobs]
  by_cases same : other = job
  · rw [if_pos same, if_pos same, same]
    rfl
  · rw [if_neg same, if_neg same]
    rfl

theorem view_write (f : ResourceHandleInternal → ResourceHandleInternal) (other : Nat) :
    (m.write job f).view other =
      if other = job then { m.view job with d := f (m.jobs job).d } else m.view other :=
  m.view_change job _ other

@[simp] theorem write_d (f : ResourceHandleInternal → ResourceHandleInternal) :
    ((m.write job f).jobs job).d = f (m.jobs job).d := by
  rw [write, change_jobs, if_pos rfl]

theorem view_deref (other : Nat) : (m.deref job).view other = m.view other := by
  rw [deref, view_change]
  split
  · rw [‹other = job›]
    rfl
  · rfl

theorem view_curlMultiAddHandle (other : Nat) :
    (m.curlMultiAddHandle job).view other =
      if other = job then { m.view job with
        added := true
        transfer := ((m.curlMultiAddHandle job).jobs job).transfer }
      else m.view other := by
  rw [curlMultiAddHandle, view_change]
  by_cases same : other = job
  · rw [if_pos same, if_pos same, view]
    simp only [change_jobs, if_true, List.mem_append, List.mem_singleton, or_true, decide_true]
    rfl
  · rw [if_neg same, if_neg same, view]
    simp only [List.mem_append, List.mem_singleton, same, or_false]
    rfl

theorem view_curlMultiRemoveHandle (nodup : m.multi.Nodup) (other : Nat) :
    (m.curlMultiRemoveHandle job).view other =
      if other = job then { m.view job with added := false } else m.view other := by
  rw [view, curlMultiRemoveHandle]
  by_cases same : other = job
  · rw [if_pos same, same]
    simp only [nodup.mem_erase_iff, ne_eq, not_true_eq_false, false_and, decide_false]
    rfl
  · rw [if_neg same]
    simp only [List.mem_erase_of_ne same]
    rfl

theorem view_appendRunningJob (other : Nat) :
    (m.appendRunningJob job).view other =
      if other = job then { m.view job with running := true } else m.view other := by
  have appended : (m.appendRunningJob job).view other =
      { m with runningJobList := m.runningJobList ++ [job] }.view other := by
    unfold appendRunningJob
    dsimp only
    split <;> rfl
  rw [appended, view]
  by_cases same : other = job
  · rw [if_pos same, same]
    simp only [List.mem_append, List.mem_singleton, or_true, decide_true]
    rfl
  · rw [if_neg same]
    simp only [List.mem_append, List.mem_singleton, same, or_false]
    rfl

theorem view_eraseRunning (nodup : m.runningJobList.Nodup) (other : Nat) :
    { m with runningJobList := m.runningJobList.erase job }.view other =
      if other = job then { m.view job with running := false } else m.view other := by
  by_cases same : other = job
  · have gone : job ∉ m.runningJobList.erase job :=
      fun member => (nodup.mem_erase_iff.mp member).1 rfl
    rw [if_pos same, same, view, decide_eq_false gone]
    rfl
  · rw [if_neg same, view]
    simp only [List.mem_erase_of_ne same]
    rfl

theorem view_removeRunningJob (nodup : m.runningJobList.Nodup) (other : Nat) :
    (m.removeRunningJob job).view other =
      if other = job then { m.view job with running := false } else m.view other := by
  rw [← m.view_eraseRunning job nodup]
  unfold removeRunningJob
  by_cases listed : job ∈ m.runningJobList
  · rw [if_pos listed]
    dsimp only
    split <;> rfl
  · rw [if_neg listed, List.erase_of_not_mem listed]

/-- The job that was started is placed. -/
theorem view_free (other : Nat) :
    { m with starting := none }.view other = { m.view other with starting := false } :=
  rfl

variable {m job}

theorem view_free_other {other : Nat} (different : m.starting ≠ some other) :
    { m with starting := none }.view other = m.view other := by
  rw [view_free, view, decide_eq_false different]

theorem view_enter_own {entry : Entry} (own : entry.job = job) :
    (m.enter entry).view job = { m.view job with entries := m.entries job ++ [entry] } := by
  rw [view, entries, enter, List.filter_append, List.filter_singleton, decide_eq_true own]
  rfl

theorem view_enter_other {entry : Entry} (other : entry.job ≠ job) :
    (m.enter entry).view job = m.view job := by
  rw [view, entries, enter, List.filter_append, List.filter_singleton, decide_eq_false other]
  rw [cond_false, List.append_nil]
  rfl

end

end ResourceHandleManager

open ResourceHandleManager

/-- The client was told that data comes and was not given it yet. -/
def View.AwaitsData (v : View) : Prop :=
  (v.entries.filter Entry.isNotice).getLast?.any Entry.announcesData = true ∧
    v.transfer.ended = true ∧ v.d.response.responseFired = true

/-- What a client that is called leaves alone. It may cancel the job and let go of it, but answers no
challenge between the notice of data and the data. -/
structure View.Undisturbed (v v' : View) : Prop where
  transfer : v'.transfer = v.transfer
  response : v'.d.response = v.d.response
  ssl : v'.d.isSSL = v.d.isSSL
  request : v'.d.request = v.d.request
  running : v'.running = v.running
  starting : v'.starting = v.starting
  proxy : v'.proxy = v.proxy
  unanswered : v.AwaitsData → v.running = true → v.d.doAuthChallenge = false →
    v'.d.doAuthChallenge = false
  acts : ∃ acts, v'.entries = v.entries ++ acts ∧
    ∀ entry ∈ acts, entry.isCancellation = true ∨ entry.isRelease = true

section
variable {v v' : View}

theorem View.Undisturbed.refl (v : View) : v.Undisturbed v :=
  ⟨rfl, rfl, rfl, rfl, rfl, rfl, rfl, fun _ _ => id, [], (List.append_nil _).symm, by simp⟩

theorem View.Undisturbed.fresh (undisturbed : v.Undisturbed v') (fresh : v.Fresh) : v'.Fresh := by
  obtain ⟨acts, entries, isAct⟩ := undisturbed.acts
  intro entry member
  rw [undisturbed.transfer]
  rw [entries] at member
  rcases List.mem_append.mp member with old | act
  · exact fresh entry old
  · rw [(Entry.silent_of_act (isAct entry act)).2.1]
    simp

theorem View.Undisturbed.has (undisturbed : v.Undisturbed v') {kind : Entry → Bool}
    (has : v.has kind) : v'.has kind := by
  obtain ⟨acts, entries, -⟩ := undisturbed.acts
  obtain ⟨entry, member, isKind⟩ := has
  exact ⟨entry, entries ▸ List.mem_append_left _ member, isKind⟩

/-- The client goes on waiting for the data it was told of. -/
theorem View.Undisturbed.awaitsData (undisturbed : v.Undisturbed v') (awaits : v.AwaitsData) :
    v'.AwaitsData := by
  obtain ⟨acts, entries, isAct⟩ := undisturbed.acts
  have silent : acts.filter Entry.isNotice = [] := by
    apply List.filter_eq_nil_iff.mpr
    intro entry member
    simp [(Entry.silent_of_act (isAct entry member)).1]
  rw [View.AwaitsData, entries, List.filter_append, silent, List.append_nil, undisturbed.transfer,
    undisturbed.response]
  exact awaits

end

theorem View.Undisturbed.trans {a b c : View} (first : a.Undisturbed b) (second : b.Undisturbed c) :
    a.Undisturbed c where
  transfer := second.transfer.trans first.transfer
  response := second.response.trans first.response
  ssl := second.ssl.trans first.ssl
  request := second.request.trans first.request
  running := second.running.trans first.running
  starting := second.starting.trans first.starting
  proxy := second.proxy.trans first.proxy
  unanswered awaits runs unanswered := second.unanswered (first.awaitsData awaits)
    (first.running.trans runs) (first.unanswered awaits runs unanswered)
  acts := by
    obtain ⟨acts, before, isAct⟩ := first.acts
    obtain ⟨acts', after, isAct'⟩ := second.acts
    refine ⟨acts ++ acts', by rw [after, before, List.append_assoc], ?_⟩
    intro entry member
    exact (List.mem_append.mp member).elim (isAct entry) (isAct' entry)

structure Undisturbed (m m' : ResourceHandleManager) : Prop where
  created : m.created ≤ m'.created
  jobs : ∀ job < m.created, (m.view job).Undisturbed (m'.view job)

theorem Undisturbed.refl (m : ResourceHandleManager) : Undisturbed m m :=
  ⟨Nat.le_refl _, fun _ _ => .refl _⟩

theorem Undisturbed.trans {a b c : ResourceHandleManager} (first : Undisturbed a b)
    (second : Undisturbed b c) : Undisturbed a c where
  created := first.created.trans second.created
  jobs job known :=
    (first.jobs job known).trans (second.jobs job (Nat.lt_of_lt_of_le known first.created))

/-- What holds in every state. `finishing` is the job whose end was told to its client and which is
still in the list. -/
structure Telling (platform : Platform) (finishing : Option Nat) (m : ResourceHandleManager) :
    Prop where
  inOrder : InOrder m
  known : ∀ entry ∈ m.history, entry.job < m.created
  listed : ∀ job, finishing = some job → job < m.created
  credentials : m.hasProxyUserPass = true → m.proxy ≠ []
  told : ∀ job < m.created, (m.view job).Told platform (decide (finishing = some job))

section
variable {platform : Platform} {m m' : ResourceHandleManager} {finishing : Option Nat} {job : Nat}

/-- A step that concerns one job. -/
theorem Telling.step (telling : Telling platform finishing m) {finishing' : Option Nat}
    (isKnown : job < m.created) (inOrder : InOrder m') (created : m'.created = m.created)
    (history : ∀ entry ∈ m'.history, entry ∈ m.history ∨ entry.job = job)
    (credentials : m'.hasProxyUserPass = true → m'.proxy ≠ [])
    (finishes : ∀ other, other ≠ job → (finishing' = some other ↔ finishing = some other))
    (others : ∀ other, other ≠ job → m'.view other = m.view other)
    (told : (m'.view job).Told platform (decide (finishing' = some job))) :
    Telling platform finishing' m' where
  inOrder := inOrder
  known := by
    intro entry member
    rw [created]
    rcases history entry member with old | own
    · exact telling.known entry old
    · exact own ▸ isKnown
  listed := by
    intro other listed
    rw [created]
    by_cases same : other = job
    · exact same ▸ isKnown
    · exact telling.listed other ((finishes other same).mp listed)
  credentials := credentials
  told := by
    intro other known
    by_cases same : other = job
    · exact same ▸ told
    · rw [others other same, decide_eq_decide.mpr (finishes other same)]
      exact telling.told other (created ▸ known)

theorem Telling.cookies (telling : Telling platform finishing m) (cookies : CookieShare) :
    Telling platform finishing { m with cookies } :=
  ⟨telling.inOrder, telling.known, telling.listed, telling.credentials, telling.told⟩

/-- A write to the internal part of a job. -/
theorem Telling.write (telling : Telling platform finishing m) (isKnown : job < m.created)
    {f : ResourceHandleInternal → ResourceHandleInternal} (handle : ∀ d, (f d).handle = d.handle)
    (told : View.Told { m.view job with d := f (m.jobs job).d } platform
      (decide (finishing = some job))) :
    Telling platform finishing (m.write job f) := by
  apply telling.step isKnown (telling.inOrder.of_ledger (m.ledger_write job handle)) rfl
    (fun entry member => Or.inl member) telling.credentials (fun other _ => Iff.rfl)
  · intro other different
    rw [view_write, if_neg different]
  · rw [view_write, if_pos rfl]
    exact told

/-- An entry about a job. -/
theorem Telling.enter (telling : Telling platform finishing m) {finishing' : Option Nat}
    (isKnown : job < m.created) {entry : Entry} (own : entry.job = job)
    (finishes : ∀ other, other ≠ job → (finishing' = some other ↔ finishing = some other))
    (told : View.Told { m.view job with entries := m.entries job ++ [entry] } platform
      (decide (finishing' = some job))) :
    Telling platform finishing' (m.enter entry) := by
  have inOrder : InOrder (m.enter entry) := telling.inOrder.of_ledger (m.ledger_enter entry)
  apply telling.step isKnown inOrder rfl _ telling.credentials finishes
  · intro other different
    exact view_enter_other (own ▸ different.symm)
  · rw [view_enter_own own]
    exact told
  · intro other member
    exact (List.mem_append.mp member).imp id fun new =>
      (congrArg Entry.job (List.mem_singleton.mp new)).trans own

/-- A job leaves that was told all, or whose client wants to hear no more. -/
theorem Telling.leave (telling : Telling platform finishing m) (isKnown : job < m.created)
    (own : finishing = none ∨ finishing = some job) (settled : (m.view job).Settled)
    (inOrder : InOrder m') (created : m'.created = m.created) (history : m'.history = m.history)
    (proxy : m'.proxy = m.proxy) (credentials : m'.hasProxyUserPass = m.hasProxyUserPass)
    (others : ∀ other, other ≠ job → m'.view other = m.view other)
    (handle : (m'.jobs job).transfer = (m.jobs job).transfer ∧
      (m'.jobs job).d.client = (m.jobs job).d.client ∧
      (m'.jobs job).d.response = (m.jobs job).d.response)
    (out : (m'.view job).held = false) (added : (m'.view job).added = false) :
    Telling platform none m' := by
  obtain ⟨transfer, client, response⟩ := handle
  apply telling.step isKnown inOrder created
  · rw [history]
    exact fun entry member => Or.inl member
  · rw [credentials, proxy]
    exact telling.credentials
  · intro other different
    rcases own with rfl | rfl
    · exact Iff.rfl
    · simp [different.symm]
  · exact others
  · rw [decide_eq_false (by simp)]
    have entries : (m'.view job).entries = (m.view job).entries := by
      change m'.entries job = m.entries job
      rw [ResourceHandleManager.entries, history]
      rfl
    exact (telling.told job isKnown).leave settled entries transfer client
      (congrArg ResourceResponse.responseFired response) out added

/-- A step that concerns one job and leaves its transfer alone. -/
theorem Undisturbed.step (created : m'.created = m.created)
    (others : ∀ other, other ≠ job → m'.view other = m.view other)
    (own : (m.view job).Undisturbed (m'.view job)) : Undisturbed m m' where
  created := created.ge
  jobs := by
    intro other _
    by_cases same : other = job
    · exact same ▸ own
    · exact others other same ▸ .refl _

end

end WkcBrowser.Network
